import Mathlib.Algebra.Ring.Nat
import Mathlib.Tactic.Common
import ZipVersa.Fft.HwBfly

/-! `fftstage` with its hardware multiplies, for any span: the half that pairs
the items of a block and feeds the butterfly, and the half that puts its
results into order. -/

set_option autoImplicit false

namespace ZipVersa.Fft

open Lib

/-! ### The registers -/

structure StageFeed (iwidth cwidth lgspan : Nat) where
  waitForSync : Bool
  iaddr : BitVec (lgspan + 1)
  imem : BitVec lgspan → Sample iwidth
  ibA : Sample iwidth
  ibB : Sample iwidth
  ibC : Sample cwidth
  ibSync : Bool
  deriving Inhabited

structure StageDrain (owidth lgspan : Nat) where
  oaddr : BitVec (lgspan + 1)
  oSync : Bool
  bStarted : Bool
  nxtOaddr : BitVec lgspan
  omem : BitVec lgspan → Sample owidth
  preOvalue : Sample owidth
  oData : Sample owidth
  deriving Inhabited

/-- A memory behind a write. -/
def stored {lgspan : Nat} {Value : Type} (mem : BitVec lgspan → Value) (place : BitVec lgspan)
    (value : Value) : BitVec lgspan → Value :=
  fun other => if other = place then value else mem other

/-- From the input to the butterfly. -/
def stageFeed {cwidth lgspan : Nat} (iwidth : Nat) (cmem : BitVec lgspan → Sample cwidth) :
    Enabled (StageFeed iwidth cwidth lgspan) (Marked (Sample iwidth))
      (Marked (BflyInput iwidth cwidth)) where
  step feed reset ce input :=
    let place := feed.iaddr.setWidth lgspan
    let counts := ce && (!feed.waitForSync || input.sync)
    { waitForSync := if reset then true else if counts then false else feed.waitForSync
      iaddr := if reset then 0 else if counts then feed.iaddr + 1 else feed.iaddr
      imem :=
        if ce && !feed.iaddr.getLsbD lgspan then stored feed.imem place input.data else feed.imem
      ibSync :=
        if reset then false
        else if ce then feed.iaddr == BitVec.ofNat (lgspan + 1) (1 <<< lgspan)
        else feed.ibSync
      ibA := if ce then feed.imem place else feed.ibA
      ibB := if ce then input.data else feed.ibB
      ibC := if ce then cmem place else feed.ibC }
  out feed := ⟨feed.ibSync, ⟨feed.ibC, feed.ibA, feed.ibB⟩⟩

/-- The butterfly as it is instantiated: between enables its inputs are zero. -/
def stageBfly (iwidth cwidth owidth bflyshift : Nat) :
    Enabled (HwBfly iwidth cwidth owidth) (Marked (BflyInput iwidth cwidth))
      (Marked (BflyOutput owidth)) where
  step bfly reset ce input :=
    bfly.step bflyshift reset ce (input.sync && ce)
      ⟨input.data.coef, if ce then input.data.left else ⟨0, 0⟩,
        if ce then input.data.right else ⟨0, 0⟩⟩
  out bfly := ⟨bfly.oAux, bfly.out⟩

/-- From the butterfly to the output. -/
def stageDrain (owidth lgspan : Nat) :
    Enabled (StageDrain owidth lgspan) (Marked (BflyOutput owidth)) (Marked (Sample owidth)) where
  step drain reset ce input :=
    let first := !drain.oaddr.getLsbD lgspan
    { oaddr :=
        if reset then 0
        else if ce && (input.sync || drain.bStarted) then drain.oaddr + 1
        else drain.oaddr
      oSync := if reset then false else if ce then first && input.sync else drain.oSync
      bStarted := if reset then false else drain.bStarted || (ce && input.sync && first)
      -- bit 0 of `oaddr` as it is, the bits above it and one
      nxtOaddr := if ce then drain.oaddr.setWidth lgspan + 2 else drain.nxtOaddr
      omem :=
        if ce && first then stored drain.omem (drain.oaddr.setWidth lgspan) input.data.right
        else drain.omem
      preOvalue := if ce then drain.omem drain.nxtOaddr else drain.preOvalue
      oData :=
        if ce then (if first then input.data.left else drain.preOvalue) else drain.oData }
  out drain := ⟨drain.oSync, drain.oData⟩

/-- `fftstage #(IWIDTH, CWIDTH, OWIDTH, LGSPAN, BFLYSHIFT, 1, 3)`. -/
def fftstage {cwidth lgspan : Nat} (iwidth owidth bflyshift : Nat)
    (cmem : BitVec lgspan → Sample cwidth) :
    Enabled (StageFeed iwidth cwidth lgspan ×
        HwBfly iwidth cwidth owidth × StageDrain owidth lgspan)
      (Marked (Sample iwidth)) (Marked (Sample owidth)) :=
  (stageFeed iwidth cmem).series
    ((stageBfly iwidth cwidth owidth bflyshift).series (stageDrain owidth lgspan))

/-! ### Places in a block -/

section Places

variable {lgspan : Nat}

theorem two_pow_half : 2 ^ (lgspan + 1) = 2 ^ lgspan + 2 ^ lgspan := by
  rw [Nat.pow_succ, Nat.mul_two]

theorem getLsbD_place (index : Nat) :
    (BitVec.ofNat (lgspan + 1) index).getLsbD lgspan =
      decide (2 ^ lgspan ≤ index % 2 ^ (lgspan + 1)) := by
  have msb := BitVec.msb_eq_decide (BitVec.ofNat (lgspan + 1) index)
  rwa [BitVec.msb_eq_getLsbD_last, Nat.add_sub_cancel, BitVec.toNat_ofNat] at msb

theorem setWidth_place (index : Nat) :
    (BitVec.ofNat (lgspan + 1) index).setWidth lgspan = BitVec.ofNat lgspan index :=
  BitVec.setWidth_ofNat_of_le (Nat.le_succ lgspan) index

theorem place_eq_half (index : Nat) :
    (BitVec.ofNat (lgspan + 1) index == BitVec.ofNat (lgspan + 1) (1 <<< lgspan)) =
      decide (index % 2 ^ (lgspan + 1) = 2 ^ lgspan) := by
  have half : 2 ^ lgspan < 2 ^ (lgspan + 1) := Nat.pow_lt_pow_right (by decide) (Nat.lt_succ_self _)
  have value : (BitVec.ofNat (lgspan + 1) (1 <<< lgspan)).toNat = 2 ^ lgspan := by
    rw [BitVec.toNat_ofNat, Nat.one_shiftLeft, Nat.mod_eq_of_lt half]
  rw [Bool.beq_eq_decide_eq]
  refine decide_eq_decide.mpr ?_
  rw [← BitVec.toNat_inj, value, BitVec.toNat_ofNat]

/-- Two places of one half, less than a block apart, differ. -/
theorem place_ne {first second : Nat} (low : first % 2 ^ (lgspan + 1) < 2 ^ lgspan)
    (high : second % 2 ^ (lgspan + 1) < 2 ^ lgspan) (before : first < second)
    (near : second < first + 2 ^ (lgspan + 1)) :
    BitVec.ofNat lgspan first ≠ BitVec.ofNat lgspan second := by
  intro same
  have divides : 2 ^ lgspan ∣ 2 ^ (lgspan + 1) := Nat.pow_dvd_pow 2 (Nat.le_succ lgspan)
  have nat := congrArg BitVec.toNat same
  rw [BitVec.toNat_ofNat, BitVec.toNat_ofNat, ← Nat.mod_mod_of_dvd first divides,
    ← Nat.mod_mod_of_dvd second divides, Nat.mod_eq_of_lt low, Nat.mod_eq_of_lt high] at nat
  have whole : (second - first) % 2 ^ (lgspan + 1) = 0 := Nat.sub_mod_eq_zero_of_mod_eq nat.symm
  rw [Nat.mod_eq_of_lt (by omega)] at whole
  omega

theorem place_sub {index : Nat} (enough : 2 ^ lgspan ≤ index) :
    BitVec.ofNat lgspan (index - 2 ^ lgspan) = BitVec.ofNat lgspan index := by
  refine BitVec.eq_of_toNat_eq ?_
  rw [BitVec.toNat_ofNat, BitVec.toNat_ofNat]
  exact (Nat.mod_eq_sub_mod enough).symm

/-- The partner of a place in the second half. -/
theorem sub_half_mod {index : Nat} (high : 2 ^ lgspan ≤ index % 2 ^ (lgspan + 1)) :
    2 ^ lgspan ≤ index ∧
      (index - 2 ^ lgspan) % 2 ^ (lgspan + 1) = index % 2 ^ (lgspan + 1) - 2 ^ lgspan := by
  have parts := Nat.div_add_mod index (2 ^ (lgspan + 1))
  have below := Nat.mod_lt index (Nat.two_pow_pos (lgspan + 1))
  have small : index % 2 ^ (lgspan + 1) ≤ index := Nat.mod_le _ _
  refine ⟨by omega, ?_⟩
  have split : index - 2 ^ lgspan =
      2 ^ (lgspan + 1) * (index / 2 ^ (lgspan + 1)) + (index % 2 ^ (lgspan + 1) - 2 ^ lgspan) := by
    omega
  rw [split, Nat.mul_add_mod, Nat.mod_eq_of_lt (by omega)]

theorem add_half_mod (index : Nat) :
    (index + 2 ^ lgspan) % 2 ^ (lgspan + 1) = 2 ^ lgspan ↔ index % 2 ^ (lgspan + 1) = 0 := by
  have half : 2 ^ (lgspan + 1) = 2 ^ lgspan + 2 ^ lgspan := two_pow_half
  have positive : 0 < 2 ^ lgspan := Nat.two_pow_pos lgspan
  have below := Nat.mod_lt index (Nat.two_pow_pos (lgspan + 1))
  rw [Nat.add_mod, Nat.mod_eq_of_lt (by omega : 2 ^ lgspan < 2 ^ (lgspan + 1))]
  rcases Nat.lt_or_ge (index % 2 ^ (lgspan + 1)) (2 ^ lgspan) with low | high
  · rw [Nat.mod_eq_of_lt (by omega)]
    omega
  · rw [Nat.mod_eq_sub_mod (by omega), Nat.mod_eq_of_lt (by omega)]
    omega

end Places

/-! ### Feeding the butterfly -/

section Feed

variable {iwidth cwidth lgspan : Nat} {cmem : BitVec lgspan → Sample cwidth}
variable {feed : StageFeed iwidth cwidth lgspan} {stream : Nat → Marked (Sample iwidth)}

/-- Items of the stream taken since its first one. -/
structure StageFeed.Feeding (cmem : BitVec lgspan → Sample cwidth)
    (stream : Nat → Marked (Sample iwidth)) (count : Nat) (feed : StageFeed iwidth cwidth lgspan) :
    Prop where
  waits : feed.waitForSync = decide (count = 0)
  place : feed.iaddr = BitVec.ofNat (lgspan + 1) count
  held : ∀ index, index % 2 ^ (lgspan + 1) < 2 ^ lgspan → index < count →
    count ≤ index + 2 ^ (lgspan + 1) →
    feed.imem (BitVec.ofNat lgspan index) = (stream index).data
  silent : count = 0 → feed.ibSync = false
  fed : ∀ last, count = last + 1 →
    feed.ibSync = decide (last % 2 ^ (lgspan + 1) = 2 ^ lgspan) ∧
      feed.ibB = (stream last).data ∧ feed.ibC = cmem (BitVec.ofNat lgspan last) ∧
      ∀ index, index % 2 ^ (lgspan + 1) < 2 ^ lgspan → index < last →
        last ≤ index + 2 ^ (lgspan + 1) →
        BitVec.ofNat lgspan index = BitVec.ofNat lgspan last → feed.ibA = (stream index).data

theorem StageFeed.Feeding.start (waits : feed.waitForSync = true) (place : feed.iaddr = 0)
    (silent : feed.ibSync = false) : feed.Feeding cmem stream 0 where
  waits := by rw [waits, decide_eq_true rfl]
  place := place
  held index _ inside := absurd inside (Nat.not_lt_zero index)
  silent _ := silent
  fed last same := absurd same.symm (Nat.succ_ne_zero last)

theorem StageFeed.Feeding.waiting {input : Marked (Sample iwidth)} (unmarked : input.sync = false)
    (feeding : feed.Feeding cmem stream 0) :
    ((stageFeed iwidth cmem).step feed false true input).Feeding cmem stream 0 := by
  have waits : feed.waitForSync = true := feeding.waits
  have place : feed.iaddr = BitVec.ofNat (lgspan + 1) 0 := feeding.place
  have other : (BitVec.ofNat (lgspan + 1) 0 == BitVec.ofNat (lgspan + 1) (1 <<< lgspan)) = false := by
    rw [place_eq_half, Nat.zero_mod]
    exact decide_eq_false (Nat.ne_of_lt (Nat.two_pow_pos lgspan))
  refine .start ?_ ?_ ?_
  · simp [stageFeed, waits, unmarked]
  · simp [stageFeed, waits, place, unmarked]
  · simpa [stageFeed, place] using other

theorem StageFeed.Feeding.takes {count : Nat} (first : (stream 0).sync = true)
    (feeding : feed.Feeding cmem stream count) :
    ((stageFeed iwidth cmem).step feed false true (stream count)).Feeding cmem stream
      (count + 1) := by
  have counts : (!feed.waitForSync || (stream count).sync) = true := by
    rw [feeding.waits]
    cases count with
    | zero => simp [first]
    | succ count => simp
  refine ⟨?_, ?_, ?_, ?_, ?_⟩
  · simp only [stageFeed, Bool.true_and, counts, Bool.false_eq_true, if_true, if_false]
    rfl
  · simp only [stageFeed, Bool.true_and, counts, Bool.false_eq_true, if_true, if_false,
      feeding.place, BitVec.ofNat_add]
    rfl
  · intro index low inside near
    simp only [stageFeed, feeding.place, getLsbD_place, setWidth_place, Bool.true_and,
      Bool.not_eq_true', decide_eq_false_iff_not, Nat.not_le]
    rcases Nat.lt_succ_iff_lt_or_eq.mp inside with earlier | rfl
    · have kept : feed.imem (BitVec.ofNat lgspan index) = (stream index).data :=
        feeding.held index low earlier (by omega)
      split_ifs with writes
      · rw [stored, if_neg (place_ne low writes earlier (by omega)), kept]
      · exact kept
    · rw [if_pos low, stored, if_pos rfl]
  · intro none
    exact absurd none (Nat.succ_ne_zero count)
  · intro last same
    obtain rfl : count = last := by omega
    refine ⟨?_, ?_, ?_, ?_⟩
    · simp only [stageFeed, feeding.place, place_eq_half, Bool.false_eq_true, if_true, if_false]
    · simp only [stageFeed, if_true]
    · simp only [stageFeed, feeding.place, setWidth_place, if_true]
    · intro index low inside near place
      simp only [stageFeed, feeding.place, setWidth_place, if_true, ← place]
      exact feeding.held index low inside near

theorem stageFeed_tracks (first : (stream 0).sync = true) :
    Tracks (stageFeed iwidth cmem) stream (StageFeed.Feeding cmem stream) where
  reset _ _ _ := .start rfl rfl rfl
  idle _ _ _ feeding := ⟨feeding.waits, feeding.place, feeding.held, feeding.silent, feeding.fed⟩
  waits _ _ unmarked feeding := feeding.waiting unmarked
  takes _ _ feeding := feeding.takes first

/-- Half a block and a clock behind the stream: pairs half a block apart. -/
theorem stageFeed_relays (period : Nat) :
    Relays (stageFeed iwidth cmem) period (2 ^ lgspan + 1) (fun stream index =>
      ⟨decide (index % 2 ^ (lgspan + 1) = 0),
        ⟨cmem (BitVec.ofNat lgspan index),
          (stream (if index % 2 ^ (lgspan + 1) < 2 ^ lgspan then index
            else index - 2 ^ lgspan)).data,
          (stream (index + 2 ^ lgspan)).data⟩⟩) := by
  refine Tracks.relays (Nat.succ_pos _) (fun stream first => stageFeed_tracks first)
    (fun stream _ => by simp) ?_ ?_ period
  · intro stream count feed feeding short
    cases count with
    | zero => exact feeding.silent rfl
    | succ last =>
        have small : last < 2 ^ lgspan := by omega
        have block : 2 ^ lgspan < 2 ^ (lgspan + 1) :=
          Nat.pow_lt_pow_right (by decide) (Nat.lt_succ_self _)
        have sync := (feeding.fed last rfl).1
        rw [Nat.mod_eq_of_lt (Nat.lt_trans small block)] at sync
        exact sync.trans (decide_eq_false (Nat.ne_of_lt small))
  · intro stream index feed feeding
    have half : 2 ^ (lgspan + 1) = 2 ^ lgspan + 2 ^ lgspan := two_pow_half
    have below := Nat.mod_lt index (Nat.two_pow_pos (lgspan + 1))
    obtain ⟨sync, right, coef, left⟩ := feeding.fed (index + 2 ^ lgspan) (by omega)
    have same : BitVec.ofNat lgspan (index + 2 ^ lgspan) = BitVec.ofNat lgspan index := by
      rw [← place_sub (Nat.le_add_left _ index), Nat.add_sub_cancel]
    have shown : feed.ibSync = decide (index % 2 ^ (lgspan + 1) = 0) :=
      sync.trans (decide_eq_decide.mpr (add_half_mod index))
    have data : feed.ibA = (stream (if index % 2 ^ (lgspan + 1) < 2 ^ lgspan then index
        else index - 2 ^ lgspan)).data := by
      split_ifs with low
      · exact left index low (by omega) (by omega) same.symm
      · obtain ⟨enough, early⟩ := sub_half_mod (Nat.le_of_not_lt low)
        refine left _ (by omega) (by omega) (by omega) ?_
        rw [place_sub enough, same]
    rw [← shown, ← data, ← right, ← same, ← coef]
    rfl

end Feed

/-! ### The results in order -/

theorem stageBfly_eq (iwidth cwidth owidth bflyshift : Nat) :
    stageBfly iwidth cwidth owidth bflyshift =
      HwBfly.circuit iwidth cwidth owidth bflyshift := by
  have same : (stageBfly iwidth cwidth owidth bflyshift).step =
      (HwBfly.circuit iwidth cwidth owidth bflyshift).step := by
    funext bfly reset ce input
    cases ce with
    | true => simp [stageBfly, HwBfly.circuit]
    | false => simp [stageBfly, HwBfly.circuit, HwBfly.step]
  exact congrArg (fun step => (⟨step, (HwBfly.circuit iwidth cwidth owidth bflyshift).out⟩ :
    Enabled (HwBfly iwidth cwidth owidth) _ _)) same

section Drain

variable {owidth lgspan : Nat} {drain : StageDrain owidth lgspan}
variable {stream : Nat → Marked (BflyOutput owidth)}

/-- Results of the stream taken since its first one. -/
structure StageDrain.Draining (stream : Nat → Marked (BflyOutput owidth)) (count : Nat)
    (drain : StageDrain owidth lgspan) : Prop where
  started : drain.bStarted = decide (0 < count)
  place : drain.oaddr = BitVec.ofNat (lgspan + 1) count
  held : ∀ index, index % 2 ^ (lgspan + 1) < 2 ^ lgspan → index < count →
    count ≤ index + 2 ^ (lgspan + 1) →
    drain.omem (BitVec.ofNat lgspan index) = (stream index).data.right
  next : ∀ last, count = last + 1 → drain.nxtOaddr = BitVec.ofNat lgspan (last + 2)
  value : 2 ^ lgspan ≤ count % 2 ^ (lgspan + 1) →
    drain.preOvalue = (stream (count - 2 ^ lgspan)).data.right
  silent : count = 0 → drain.oSync = false
  shown : ∀ last, count = last + 1 →
    drain.oSync = (decide (last % 2 ^ (lgspan + 1) < 2 ^ lgspan) && (stream last).sync) ∧
      drain.oData =
        if last % 2 ^ (lgspan + 1) < 2 ^ lgspan then (stream last).data.left
        else (stream (last - 2 ^ lgspan)).data.right

theorem StageDrain.Draining.start (waits : drain.bStarted = false) (place : drain.oaddr = 0)
    (silent : drain.oSync = false) : drain.Draining stream 0 where
  started := waits
  place := place
  held index _ inside := absurd inside (Nat.not_lt_zero index)
  next last same := absurd same.symm (Nat.succ_ne_zero last)
  value high := by
    rw [Nat.zero_mod] at high
    exact absurd high (Nat.not_le_of_lt (Nat.two_pow_pos lgspan))
  silent _ := silent
  shown last same := absurd same.symm (Nat.succ_ne_zero last)

theorem StageDrain.Draining.waiting {input : Marked (BflyOutput owidth)}
    (unmarked : input.sync = false) (draining : drain.Draining stream 0) :
    ((stageDrain owidth lgspan).step drain false true input).Draining stream 0 := by
  have waits : drain.bStarted = false := draining.started
  have place : drain.oaddr = BitVec.ofNat (lgspan + 1) 0 := draining.place
  refine .start ?_ ?_ ?_
  · simp [stageDrain, waits, unmarked]
  · simp [stageDrain, waits, place, unmarked]
  · simp [stageDrain, unmarked]

theorem StageDrain.Draining.takes {count : Nat} (positive : 0 < lgspan)
    (first : (stream 0).sync = true) (draining : drain.Draining stream count) :
    ((stageDrain owidth lgspan).step drain false true (stream count)).Draining stream
      (count + 1) := by
  have half : 2 ^ (lgspan + 1) = 2 ^ lgspan + 2 ^ lgspan := two_pow_half
  have counts : ((stream count).sync || drain.bStarted) = true := by
    rw [draining.started]
    cases count with
    | zero => simp [first]
    | succ count => simp
  have top : (!drain.oaddr.getLsbD lgspan) =
      decide (count % 2 ^ (lgspan + 1) < 2 ^ lgspan) := by
    rw [draining.place, getLsbD_place, ← decide_not]
    exact decide_eq_decide.mpr Nat.not_le
  refine ⟨?_, ?_, ?_, ?_, ?_, ?_, ?_⟩
  · simp only [stageDrain, Bool.true_and, Bool.false_eq_true, if_false, top, draining.started]
    cases count with
    | zero => simp [first]
    | succ count => simp
  · simp only [stageDrain, Bool.true_and, counts, Bool.false_eq_true, if_true, if_false,
      draining.place, BitVec.ofNat_add]
    rfl
  · intro index low inside near
    simp only [stageDrain, draining.place, getLsbD_place, setWidth_place, Bool.true_and,
      Bool.not_eq_true', decide_eq_false_iff_not, Nat.not_le]
    rcases Nat.lt_succ_iff_lt_or_eq.mp inside with earlier | rfl
    · have kept : drain.omem (BitVec.ofNat lgspan index) = (stream index).data.right :=
        draining.held index low earlier (by omega)
      split_ifs with writes
      · rw [stored, if_neg (place_ne low writes earlier (by omega)), kept]
      · exact kept
    · rw [if_pos low, stored, if_pos rfl]
  · intro last same
    obtain rfl : count = last := by omega
    simp only [stageDrain, draining.place, setWidth_place, if_true, BitVec.ofNat_add]
    rfl
  · intro high
    obtain ⟨enough, early⟩ := sub_half_mod high
    have two : 2 ^ 1 ≤ 2 ^ lgspan := Nat.pow_le_pow_right Nat.two_pos positive
    have below := Nat.mod_lt (count + 1) (Nat.two_pow_pos (lgspan + 1))
    obtain ⟨last, rfl⟩ : ∃ last, count = last + 1 := ⟨count - 1, by omega⟩
    simp only [stageDrain, if_true, draining.next last rfl]
    rw [← place_sub enough]
    exact draining.held _ (by omega) (by omega) (by omega)
  · intro none
    exact absurd none (Nat.succ_ne_zero count)
  · intro last same
    obtain rfl : count = last := by omega
    refine ⟨by simp only [stageDrain, Bool.false_eq_true, if_true, if_false, top], ?_⟩
    simp only [stageDrain, if_true, top, decide_eq_true_eq]
    split_ifs with low
    · rfl
    · exact draining.value (Nat.le_of_not_lt low)

theorem stageDrain_tracks (positive : 0 < lgspan) (first : (stream 0).sync = true) :
    Tracks (stageDrain owidth lgspan) stream (StageDrain.Draining stream) where
  reset _ _ _ := .start rfl rfl rfl
  idle _ _ _ draining :=
    ⟨by simp [stageDrain, draining.started], draining.place, draining.held, draining.next,
      draining.value, draining.silent, draining.shown⟩
  waits _ _ unmarked draining := draining.waiting unmarked
  takes _ _ draining := draining.takes positive first

/-- A clock behind the butterfly: in the first half of a block its left results
as they come, in the second the right ones of the first. -/
theorem stageDrain_relays (positive : 0 < lgspan) (period : Nat) :
    Relays (stageDrain owidth lgspan) period 1 (fun stream index =>
      ⟨decide (index % 2 ^ (lgspan + 1) < 2 ^ lgspan) && (stream index).sync,
        if index % 2 ^ (lgspan + 1) < 2 ^ lgspan then (stream index).data.left
        else (stream (index - 2 ^ lgspan)).data.right⟩) := by
  refine Tracks.relays Nat.one_pos (fun stream first => stageDrain_tracks positive first)
    (fun stream marked => by simp [marked]) ?_ ?_ period
  · intro stream count drain draining short
    exact draining.silent (by omega)
  · intro stream index drain draining
    obtain ⟨sync, data⟩ := draining.shown index (Nat.add_comm 1 index)
    rw [← sync, ← data]
    rfl

end Drain

/-! ### The stage -/

section Stage

variable {cwidth lgspan : Nat}

/-- A stage on a whole stream: the butterflies of the pairs of each block, the
left results before the right ones. -/
def stageStream {iwidth : Nat} (owidth bflyshift : Nat) (cmem : BitVec lgspan → Sample cwidth)
    (stream : Nat → Sample iwidth) (index : Nat) : Sample owidth :=
  let pair (first : Nat) : BflyOutput owidth :=
    HwBfly.result ⟨cmem (BitVec.ofNat lgspan first), stream first, stream (first + 2 ^ lgspan)⟩
      bflyshift
  if index % 2 ^ (lgspan + 1) < 2 ^ lgspan then (pair index).left
  else (pair (index - 2 ^ lgspan)).right

theorem fftstage_relays (iwidth owidth bflyshift : Nat) (cmem : BitVec lgspan → Sample cwidth)
    (positive : 0 < lgspan) :
    Relays (fftstage iwidth owidth bflyshift cmem) 3 (2 ^ lgspan + 8) (fun stream index =>
      ⟨decide (index % 2 ^ (lgspan + 1) = 0),
        stageStream owidth bflyshift cmem (fun index => (stream index).data) index⟩) := by
  have bfly := HwBfly.relays iwidth cwidth owidth bflyshift
  rw [← stageBfly_eq] at bfly
  have feed := @stageFeed_relays iwidth cwidth lgspan cmem 3
  have drain := @stageDrain_relays owidth lgspan positive 3
  have whole := feed.series (bfly.series drain)
  refine whole.congr rfl fun stream index => ?_
  have half : 2 ^ (lgspan + 1) = 2 ^ lgspan + 2 ^ lgspan := two_pow_half
  have block := Nat.two_pow_pos lgspan
  simp only [stageStream]
  by_cases low : index % 2 ^ (lgspan + 1) < 2 ^ lgspan
  · simp only [low, decide_true, Bool.true_and, if_true]
  · obtain ⟨enough, early⟩ := sub_half_mod (Nat.le_of_not_lt low)
    have below := Nat.mod_lt index (Nat.two_pow_pos (lgspan + 1))
    have first : (index - 2 ^ lgspan) % 2 ^ (lgspan + 1) < 2 ^ lgspan := by omega
    have other : index % 2 ^ (lgspan + 1) ≠ 0 := by omega
    simp only [low, other, first, decide_false, Bool.false_and, if_true, if_false]

end Stage

end ZipVersa.Fft
