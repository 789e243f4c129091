import Mathlib.Algebra.Ring.Nat
import Mathlib.Tactic.Common
import ZipVersa.Fft.HwBfly

/-! `qtrstage` and `laststage`, the two stages without a multiply. -/

set_option autoImplicit false

namespace ZipVersa.Fft

open Lib HwBfly

structure QtrStage (iwidth owidth lgwidth : Nat) where
  waitForSync : Bool
  pipeline0 : Bool
  pipeline1 : Bool
  pipeline2 : Bool
  sumR : BitVec (iwidth + 1)
  sumI : BitVec (iwidth + 1)
  diffR : BitVec (iwidth + 1)
  diffI : BitVec (iwidth + 1)
  rndSum : Sample owidth
  rndDiff : Sample owidth
  obA : Sample owidth
  obB : Sample owidth
  iaddr : BitVec lgwidth
  imem0 : Sample iwidth
  imem1 : Sample iwidth
  omem0 : Sample owidth
  omem1 : Sample owidth
  oData : Sample owidth
  oSync : Bool
  deriving DecidableEq, Inhabited, Repr

/-- A difference turned by a quarter: `-j` forward, `j` for the inverse. -/
def quarter {owidth : Nat} (inverse : Bool) (diff : Sample owidth) : Sample owidth :=
  if inverse then ⟨-diff.im, diff.re⟩ else ⟨diff.im, -diff.re⟩

/-- `qtrstage #(IWIDTH, OWIDTH, LGWIDTH, INVERSE, SHIFT)`. -/
def qtrstage (iwidth owidth lgwidth : Nat) (inverse : Bool) (shift : Nat) :
    Enabled (QtrStage iwidth owidth lgwidth) (Marked (Sample iwidth)) (Marked (Sample owidth)) where
  step stage reset ce input :=
    let counts := ce && (!stage.waitForSync || input.sync)
    let pairs := ce && stage.iaddr.getLsbD 1
    { waitForSync := if reset then true else if counts then false else stage.waitForSync
      iaddr := if reset then 0 else if counts then stage.iaddr + 1 else stage.iaddr
      imem0 := if ce then input.data else stage.imem0
      imem1 := if ce then stage.imem0 else stage.imem1
      pipeline0 := if reset then false else if ce then stage.iaddr.getLsbD 1 else stage.pipeline0
      pipeline1 := if reset then false else if ce then stage.pipeline0 else stage.pipeline1
      pipeline2 := if reset then false else if ce then stage.pipeline1 else stage.pipeline2
      sumR := if pairs then wideAdd stage.imem1.re input.data.re else stage.sumR
      sumI := if pairs then wideAdd stage.imem1.im input.data.im else stage.sumI
      diffR := if pairs then wideSub stage.imem1.re input.data.re else stage.diffR
      diffI := if pairs then wideSub stage.imem1.im input.data.im else stage.diffI
      rndSum :=
        if ce then ⟨convround owidth shift stage.sumR, convround owidth shift stage.sumI⟩
        else stage.rndSum
      rndDiff :=
        if ce then ⟨convround owidth shift stage.diffR, convround owidth shift stage.diffI⟩
        else stage.rndDiff
      obA := if ce then stage.rndSum else stage.obA
      obB :=
        if ce then
          (if !stage.iaddr.getLsbD 0 then stage.rndDiff else quarter inverse stage.rndDiff)
        else stage.obB
      omem0 := if ce then stage.obB else stage.omem0
      omem1 := if ce then stage.omem0 else stage.omem1
      oData := if ce then (if stage.pipeline2 then stage.obA else stage.omem1) else stage.oData
      oSync :=
        if reset then false else if ce then stage.iaddr.setWidth 3 == 5 else stage.oSync }
  out stage := ⟨stage.oSync, stage.oData⟩

structure LastStage (iwidth owidth : Nat) where
  m : Sample iwidth
  rndR : BitVec (iwidth + 1)
  rndI : BitVec (iwidth + 1)
  stoR : BitVec (iwidth + 1)
  stoI : BitVec (iwidth + 1)
  waitForSync : Bool
  stage : Bool
  syncPipe0 : Bool
  syncPipe1 : Bool
  oSync : Bool
  oVal : Sample owidth
  deriving DecidableEq, Inhabited, Repr

/-- `laststage #(IWIDTH, OWIDTH, SHIFT)`. -/
def laststage (iwidth owidth shift : Nat) :
    Enabled (LastStage iwidth owidth) (Marked (Sample iwidth)) (Marked (Sample owidth)) where
  step last reset ce input :=
    let opens := ce && (!last.waitForSync || input.sync) && !last.stage
    { waitForSync := if reset then true else if opens then false else last.waitForSync
      stage := if reset then false else if opens then true else if ce then false else last.stage
      syncPipe0 := if reset then false else if ce then input.sync else last.syncPipe0
      syncPipe1 := if reset then false else if ce then last.syncPipe0 else last.syncPipe1
      oSync := if reset then false else if ce then last.syncPipe1 else last.oSync
      m := if ce && !last.stage then input.data else last.m
      rndR :=
        if ce then (if last.stage then wideAdd last.m.re input.data.re else last.stoR)
        else last.rndR
      rndI :=
        if ce then (if last.stage then wideAdd last.m.im input.data.im else last.stoI)
        else last.rndI
      stoR := if ce && last.stage then wideSub last.m.re input.data.re else last.stoR
      stoI := if ce && last.stage then wideSub last.m.im input.data.im else last.stoI
      oVal :=
        if ce then ⟨convround owidth shift last.rndR, convround owidth shift last.rndI⟩
        else last.oVal }
  out last := ⟨last.oSync, last.oVal⟩

/-- Both parts of a sum, rounded. -/
def roundedSum {iwidth : Nat} (owidth shift : Nat) (first second : Sample iwidth) :
    Sample owidth :=
  ⟨convround owidth shift (wideAdd first.re second.re),
    convround owidth shift (wideAdd first.im second.im)⟩

/-- Both parts of a difference, rounded. -/
def roundedDiff {iwidth : Nat} (owidth shift : Nat) (first second : Sample iwidth) :
    Sample owidth :=
  ⟨convround owidth shift (wideSub first.re second.re),
    convround owidth shift (wideSub first.im second.im)⟩

/-! ### The last stage -/

section Last

variable {iwidth owidth shift : Nat} {last : LastStage iwidth owidth}
variable {stream : Nat → Marked (Sample iwidth)}

/-- Items of the stream taken since its first one. -/
structure LastStage.Pairing (shift : Nat) (stream : Nat → Marked (Sample iwidth)) (count : Nat)
    (last : LastStage iwidth owidth) : Prop where
  waits : last.waitForSync = decide (count = 0)
  stage : last.stage = decide (count % 2 = 1)
  silent : (count < 1 → last.syncPipe0 = false) ∧ (count < 2 → last.syncPipe1 = false) ∧
    (count < 3 → last.oSync = false)
  mark0 : ∀ index, count = index + 1 → last.syncPipe0 = (stream index).sync
  mark1 : ∀ index, count = index + 2 → last.syncPipe1 = (stream index).sync
  mark2 : ∀ index, count = index + 3 → last.oSync = (stream index).sync
  held : ∀ index, count = index + 1 → index % 2 = 0 → last.m = (stream index).data
  paired : ∀ index, count = index + 2 → index % 2 = 0 →
    last.rndR = wideAdd (stream index).data.re (stream (index + 1)).data.re ∧
      last.rndI = wideAdd (stream index).data.im (stream (index + 1)).data.im ∧
      last.stoR = wideSub (stream index).data.re (stream (index + 1)).data.re ∧
      last.stoI = wideSub (stream index).data.im (stream (index + 1)).data.im
  later : ∀ index, count = index + 3 → index % 2 = 0 →
    last.oVal = roundedSum owidth shift (stream index).data (stream (index + 1)).data ∧
      last.rndR = wideSub (stream index).data.re (stream (index + 1)).data.re ∧
      last.rndI = wideSub (stream index).data.im (stream (index + 1)).data.im
  out : ∀ index, count = index + 4 → index % 2 = 0 →
    last.oVal = roundedDiff owidth shift (stream index).data (stream (index + 1)).data

theorem LastStage.Pairing.start (waits : last.waitForSync = true) (stage : last.stage = false)
    (silent : last.syncPipe0 = false ∧ last.syncPipe1 = false ∧ last.oSync = false) :
    last.Pairing shift stream 0 := by
  refine ⟨waits, stage, ⟨fun _ => silent.1, fun _ => silent.2.1, fun _ => silent.2.2⟩,
    ?_, ?_, ?_, ?_, ?_, ?_, ?_⟩ <;>
  · intro index same
    omega

theorem LastStage.Pairing.waiting {input : Marked (Sample iwidth)} (unmarked : input.sync = false)
    (pairing : last.Pairing shift stream 0) :
    ((laststage iwidth owidth shift).step last false true input).Pairing shift stream 0 := by
  have waits : last.waitForSync = true := pairing.waits
  have stage : last.stage = false := pairing.stage
  obtain ⟨first, second, third⟩ := pairing.silent
  refine .start ?_ ?_ ?_
  · simp [laststage, waits, unmarked]
  · simp [laststage, waits, unmarked]
  · simp [laststage, unmarked, first, second]

theorem LastStage.Pairing.takes {count : Nat} (first : (stream 0).sync = true)
    (pairing : last.Pairing shift stream count) :
    ((laststage iwidth owidth shift).step last false true (stream count)).Pairing shift stream
      (count + 1) := by
  have counts : (!last.waitForSync || (stream count).sync) = true := by
    rw [pairing.waits]
    cases count with
    | zero => simp [first]
    | succ count => simp
  obtain ⟨first', second, third⟩ := pairing.silent
  refine ⟨?_, ?_, ⟨?_, ?_, ?_⟩, ?_, ?_, ?_, ?_, ?_, ?_, ?_⟩
  · simp only [laststage, Bool.true_and, counts, Bool.false_eq_true, if_false]
    rw [pairing.waits, pairing.stage]
    cases count with
    | zero => rfl
    | succ count => simp
  · simp only [laststage, Bool.true_and, counts, pairing.stage, Bool.false_eq_true, if_false,
      if_true]
    rcases Nat.mod_two_eq_zero_or_one count with even | odd
    · simp [even, Nat.add_mod]
    · simp [odd, Nat.add_mod]
  · intro none
    omega
  · intro short
    simpa [laststage] using first' (by omega)
  · intro short
    simpa [laststage] using second (by omega)
  · intro index same
    obtain rfl : count = index := by omega
    simp [laststage]
  · intro index same
    simpa [laststage] using pairing.mark0 index (by omega)
  · intro index same
    simpa [laststage] using pairing.mark1 index (by omega)
  · intro index same even
    obtain rfl : count = index := by omega
    have stage : last.stage = false := by
      rw [pairing.stage, even]
      rfl
    simp [laststage, stage]
  · intro index same even
    obtain rfl : count = index + 1 := by omega
    have stage : last.stage = true := by
      rw [pairing.stage]
      exact decide_eq_true (by omega)
    have held := pairing.held index rfl even
    simp [laststage, stage, held]
  · intro index same even
    obtain rfl : count = index + 2 := by omega
    have stage : last.stage = false := by
      rw [pairing.stage]
      exact decide_eq_false (by omega)
    obtain ⟨rndR, rndI, stoR, stoI⟩ := pairing.paired index rfl even
    simp [laststage, stage, rndR, rndI, stoR, stoI, roundedSum]
  · intro index same even
    obtain rfl : count = index + 3 := by omega
    obtain ⟨_, rndR, rndI⟩ := pairing.later index rfl even
    simp [laststage, rndR, rndI, roundedDiff]

theorem laststage_tracks (first : (stream 0).sync = true) :
    Tracks (laststage iwidth owidth shift) stream (LastStage.Pairing shift stream) where
  reset _ _ _ := .start rfl rfl ⟨rfl, rfl, rfl⟩
  idle _ _ _ pairing :=
    ⟨pairing.waits, pairing.stage, pairing.silent, pairing.mark0, pairing.mark1, pairing.mark2,
      pairing.held, pairing.paired, pairing.later, pairing.out⟩
  waits _ _ unmarked pairing := pairing.waiting unmarked
  takes _ _ pairing := pairing.takes first

/-- The sums and differences of the pairs of a stream. -/
def lastStream {iwidth : Nat} (owidth shift : Nat) (stream : Nat → Sample iwidth) (index : Nat) :
    Sample owidth :=
  if index % 2 = 0 then roundedSum owidth shift (stream index) (stream (index + 1))
  else roundedDiff owidth shift (stream (index - 1)) (stream index)

theorem laststage_relays (iwidth owidth shift period : Nat) :
    Relays (laststage iwidth owidth shift) period 3 (fun stream index =>
      ⟨(stream index).sync, lastStream owidth shift (fun index => (stream index).data) index⟩) := by
  refine Tracks.relays (Nat.succ_pos 2) (fun stream first => laststage_tracks first) ?_ ?_ ?_ period
  · intro stream marked
    exact marked
  · intro stream count last pairing short
    exact pairing.silent.2.2 short
  · intro stream index last pairing
    have data : last.oVal =
        lastStream owidth shift (fun index => (stream index).data) index := by
      rw [lastStream]
      split_ifs with even
      · exact (pairing.later index (Nat.add_comm 3 index) even).1
      · obtain ⟨before, rfl⟩ : ∃ before, index = before + 1 := ⟨index - 1, by omega⟩
        exact pairing.out before (by omega) (by omega)
    rw [← data, ← pairing.mark2 index (Nat.add_comm 3 index)]
    rfl

end Last

/-! ### The quarter stage -/

section Quarter

variable {iwidth owidth lgwidth shift : Nat} {inverse : Bool}
variable {stage : QtrStage iwidth owidth lgwidth} {stream : Nat → Marked (Sample iwidth)}

theorem getLsbD_one_count (room : 3 ≤ lgwidth) (count : Nat) :
    (BitVec.ofNat lgwidth count).getLsbD 1 = decide (2 ≤ count % 4) := by
  rw [BitVec.getLsbD_ofNat, decide_eq_true (by omega : 1 < lgwidth), Bool.true_and,
    Nat.testBit_eq_decide_div_mod_eq]
  exact decide_eq_decide.mpr (by omega)

theorem getLsbD_zero_count (room : 3 ≤ lgwidth) (count : Nat) :
    (!(BitVec.ofNat lgwidth count).getLsbD 0) = decide (count % 2 = 0) := by
  rw [BitVec.getLsbD_ofNat, decide_eq_true (by omega : 0 < lgwidth), Bool.true_and,
    Nat.testBit_zero, ← decide_not]
  exact decide_eq_decide.mpr (by omega)

theorem setWidth_three_count (room : 3 ≤ lgwidth) (count : Nat) :
    ((BitVec.ofNat lgwidth count).setWidth 3 == 5) = decide (count % 8 = 5) := by
  rw [BitVec.setWidth_ofNat_of_le room, Bool.beq_eq_decide_eq]
  refine decide_eq_decide.mpr ?_
  rw [← BitVec.toNat_inj, BitVec.toNat_ofNat]
  rfl

/-- The rounded difference of a pair, turned where its place is odd. -/
def turned (inverse : Bool) (owidth shift : Nat) (stream : Nat → Sample iwidth) (index : Nat) :
    Sample owidth :=
  let diff := roundedDiff owidth shift (stream (index - 2)) (stream index)
  if index % 2 = 0 then diff else quarter inverse diff

/-- Items of the stream taken since its first one. -/
structure QtrStage.Turning (inverse : Bool) (shift : Nat) (stream : Nat → Marked (Sample iwidth))
    (count : Nat) (stage : QtrStage iwidth owidth lgwidth) : Prop where
  waits : stage.waitForSync = decide (count = 0)
  place : stage.iaddr = BitVec.ofNat lgwidth count
  silent : count = 0 → stage.oSync = false
  mark : ∀ index, count = index + 1 → stage.oSync = decide (index % 8 = 5)
  held0 : ∀ index, count = index + 1 → stage.imem0 = (stream index).data
  held1 : ∀ index, count = index + 2 → stage.imem1 = (stream index).data
  pipe0 : ∀ index, count = index + 1 → stage.pipeline0 = decide (2 ≤ index % 4)
  pipe1 : ∀ index, count = index + 2 → stage.pipeline1 = decide (2 ≤ index % 4)
  pipe2 : ∀ index, count = index + 3 → stage.pipeline2 = decide (2 ≤ index % 4)
  paired : ∀ index, count = index + 1 → 2 ≤ index % 4 →
    stage.sumR = wideAdd (stream (index - 2)).data.re (stream index).data.re ∧
      stage.sumI = wideAdd (stream (index - 2)).data.im (stream index).data.im ∧
      stage.diffR = wideSub (stream (index - 2)).data.re (stream index).data.re ∧
      stage.diffI = wideSub (stream (index - 2)).data.im (stream index).data.im
  rounded : ∀ index, count = index + 2 → 2 ≤ index % 4 →
    stage.rndSum = roundedSum owidth shift (stream (index - 2)).data (stream index).data ∧
      stage.rndDiff = roundedDiff owidth shift (stream (index - 2)).data (stream index).data
  turns : ∀ index, count = index + 3 → 2 ≤ index % 4 →
    stage.obA = roundedSum owidth shift (stream (index - 2)).data (stream index).data ∧
      stage.obB = turned inverse owidth shift (fun index => (stream index).data) index
  later0 : ∀ index, count = index + 4 → 2 ≤ index % 4 →
    stage.oData = roundedSum owidth shift (stream (index - 2)).data (stream index).data ∧
      stage.omem0 = turned inverse owidth shift (fun index => (stream index).data) index
  later1 : ∀ index, count = index + 5 → 2 ≤ index % 4 →
    stage.omem1 = turned inverse owidth shift (fun index => (stream index).data) index
  out : ∀ index, count = index + 6 → 2 ≤ index % 4 →
    stage.oData = turned inverse owidth shift (fun index => (stream index).data) index

theorem QtrStage.Turning.start (waits : stage.waitForSync = true) (place : stage.iaddr = 0)
    (silent : stage.oSync = false) : stage.Turning inverse shift stream 0 := by
  refine ⟨waits, place, fun _ => silent, ?_, ?_, ?_, ?_, ?_, ?_, ?_, ?_, ?_, ?_, ?_, ?_⟩ <;>
  · intro index same
    omega

theorem QtrStage.Turning.waiting {input : Marked (Sample iwidth)} (room : 3 ≤ lgwidth)
    (unmarked : input.sync = false) (turning : stage.Turning inverse shift stream 0) :
    ((qtrstage iwidth owidth lgwidth inverse shift).step stage false true input).Turning inverse
      shift stream 0 := by
  have waits : stage.waitForSync = true := turning.waits
  have place := turning.place
  refine .start ?_ ?_ ?_
  · simp [qtrstage, waits, unmarked]
  · simpa [qtrstage, waits, unmarked] using place
  · simp only [qtrstage, place, setWidth_three_count room, Bool.false_eq_true, if_false, if_true]
    rfl

theorem QtrStage.Turning.takes {count : Nat} (room : 3 ≤ lgwidth) (first : (stream 0).sync = true)
    (turning : stage.Turning inverse shift stream count) :
    ((qtrstage iwidth owidth lgwidth inverse shift).step stage false true (stream count)).Turning
      inverse shift stream (count + 1) := by
  have counts : (!stage.waitForSync || (stream count).sync) = true := by
    rw [turning.waits]
    cases count with
    | zero => simp [first]
    | succ count => simp
  have upper := getLsbD_one_count room count
  have lower := getLsbD_zero_count room count
  rw [← turning.place] at upper lower
  refine ⟨?_, ?_, ?_, ?_, ?_, ?_, ?_, ?_, ?_, ?_, ?_, ?_, ?_, ?_, ?_⟩
  · simp only [qtrstage, Bool.true_and, counts, Bool.false_eq_true, if_true, if_false]
    rfl
  · simp only [qtrstage, Bool.true_and, counts, Bool.false_eq_true, if_true, if_false,
      turning.place, BitVec.ofNat_add]
    rfl
  · intro none
    exact absurd none (Nat.succ_ne_zero count)
  · intro index same
    obtain rfl : count = index := by omega
    simp only [qtrstage, turning.place, setWidth_three_count room, Bool.false_eq_true, if_false,
      if_true]
  · intro index same
    obtain rfl : count = index := by omega
    simp [qtrstage]
  · intro index same
    simpa [qtrstage] using turning.held0 index (by omega)
  · intro index same
    obtain rfl : count = index := by omega
    simp only [qtrstage, Bool.false_eq_true, if_false, if_true, upper]
  · intro index same
    simpa [qtrstage] using turning.pipe0 index (by omega)
  · intro index same
    simpa [qtrstage] using turning.pipe1 index (by omega)
  · intro index same second
    obtain rfl : count = index := by omega
    have held := turning.held1 (count - 2) (by omega)
    simp [qtrstage, upper, second, held]
  · intro index same second
    obtain ⟨sumR, sumI, diffR, diffI⟩ := turning.paired index (by omega) second
    simp [qtrstage, sumR, sumI, diffR, diffI, roundedSum, roundedDiff]
  · intro index same second
    obtain ⟨sum, diff⟩ := turning.rounded index (by omega) second
    have even : (count % 2 = 0) = (index % 2 = 0) := propext (by omega)
    simp only [qtrstage, if_true, lower, sum, diff, turned, decide_eq_true_eq, even, and_self]
  · intro index same second
    obtain ⟨sum, diff⟩ := turning.turns index (by omega) second
    have pipe := turning.pipe2 index (by omega)
    simp [qtrstage, sum, diff, pipe, second]
  · intro index same second
    simpa [qtrstage] using (turning.later0 index (by omega) second).2
  · intro index same second
    have pipe := turning.pipe2 (index + 2) (by omega)
    have later := turning.later1 index (by omega) second
    have low : ¬ 2 ≤ (index + 2) % 4 := by omega
    simp [qtrstage, pipe, later, low]

theorem qtrstage_tracks (room : 3 ≤ lgwidth) (first : (stream 0).sync = true) :
    Tracks (qtrstage iwidth owidth lgwidth inverse shift) stream
      (QtrStage.Turning inverse shift stream) where
  reset _ _ _ := .start rfl rfl rfl
  idle _ _ _ turning :=
    ⟨turning.waits, turning.place, turning.silent, turning.mark, turning.held0, turning.held1,
      turning.pipe0, turning.pipe1, turning.pipe2, turning.paired, turning.rounded, turning.turns,
      turning.later0, turning.later1, turning.out⟩
  waits _ _ unmarked turning := turning.waiting room unmarked
  takes _ _ turning := turning.takes room first

/-- The sums of the pairs two apart in each block of four, then the differences. -/
def qtrStream (inverse : Bool) (owidth shift : Nat) (stream : Nat → Sample iwidth) (index : Nat) :
    Sample owidth :=
  if index % 4 < 2 then roundedSum owidth shift (stream index) (stream (index + 2))
  else turned inverse owidth shift stream index

/-- Six enables behind; a mark at every other block. -/
theorem qtrstage_relays (iwidth owidth : Nat) (inverse : Bool) (shift period : Nat)
    (room : 3 ≤ lgwidth) :
    Relays (qtrstage iwidth owidth lgwidth inverse shift) period 6 (fun stream index =>
      ⟨decide (index % 8 = 0),
        qtrStream inverse owidth shift (fun index => (stream index).data) index⟩) := by
  refine Tracks.relays (Nat.succ_pos 5) (fun stream first => qtrstage_tracks room first)
    (fun stream _ => rfl) ?_ ?_ period
  · intro stream count stage turning short
    cases count with
    | zero => exact turning.silent rfl
    | succ index => exact (turning.mark index rfl).trans (decide_eq_false (by omega))
  · intro stream index stage turning
    have mark : stage.oSync = decide (index % 8 = 0) :=
      (turning.mark (index + 5) (by omega)).trans (decide_eq_decide.mpr (by omega))
    have data : stage.oData =
        qtrStream inverse owidth shift (fun index => (stream index).data) index := by
      rw [qtrStream]
      split_ifs with low
      · exact (turning.later0 (index + 2) (by omega) (by omega)).1
      · exact turning.out index (by omega) (by omega)
    rw [← mark, ← data]
    rfl

end Quarter

end ZipVersa.Fft
