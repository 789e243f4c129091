import Mathlib.Data.Nat.Cast.Basic
import Mathlib.Tactic.Common
import ZipVersa.Fft.ConvRound
import ZipVersa.Lib.Enabled

/-! `hwbfly` as the stages build it, `CKPCE = 3`: one multiplier shared by the
three products of a complex multiply, within the three clocks of an enable. -/

set_option autoImplicit false

namespace ZipVersa.Fft

open Lib

/-- A complex value: the real half of a word over the imaginary one. -/
structure Sample (width : Nat) where
  re : BitVec width
  im : BitVec width
  deriving DecidableEq, Inhabited, Repr

/-- `i_coef`, `i_left`, `i_right`. -/
structure BflyInput (iwidth cwidth : Nat) where
  coef : Sample cwidth
  left : Sample iwidth
  right : Sample iwidth
  deriving DecidableEq, Inhabited, Repr

/-- `o_left`, `o_right`. -/
structure BflyOutput (owidth : Nat) where
  left : Sample owidth
  right : Sample owidth
  deriving DecidableEq, Inhabited, Repr

/-- `leftv` and the registers behind it. -/
structure LeftValue (iwidth : Nat) where
  aux : Bool
  sumR : BitVec (iwidth + 1)
  sumI : BitVec (iwidth + 1)
  deriving DecidableEq, Inhabited, Repr

/-- `mpy_pipe_c`, `mpy_pipe_d`: three values to shift out at the top. -/
structure MpyPipe (width : Nat) where
  top : BitVec width
  next : BitVec width
  last : BitVec width
  deriving DecidableEq, Inhabited, Repr

/-- The next one to the top, zero behind the last. -/
def MpyPipe.shift {width : Nat} (pipe : MpyPipe width) : MpyPipe width :=
  ⟨pipe.next, pipe.last, 0⟩

structure HwBfly (iwidth cwidth owidth : Nat) where
  rLeft : Sample iwidth
  rRight : Sample iwidth
  rAux : Bool
  rAux2 : Bool
  rCoef : Sample cwidth
  irCoefR : BitVec cwidth
  irCoefI : BitVec cwidth
  rSumR : BitVec (iwidth + 1)
  rSumI : BitVec (iwidth + 1)
  rDifR : BitVec (iwidth + 1)
  rDifI : BitVec (iwidth + 1)
  leftv : LeftValue iwidth
  leftvv : LeftValue iwidth
  cePhase : BitVec 3
  mpyPipeC : MpyPipe (cwidth + 1)
  mpyPipeD : MpyPipe (iwidth + 2)
  mpyPipeOut : BitVec (cwidth + iwidth + 3)
  rpOne : BitVec (iwidth + 1 + cwidth)
  rpTwo : BitVec (iwidth + 1 + cwidth)
  rpThree : BitVec (cwidth + iwidth + 3)
  rp2One : BitVec (iwidth + 1 + cwidth)
  rp2Two : BitVec (iwidth + 1 + cwidth)
  rp2Three : BitVec (cwidth + iwidth + 3)
  leftSaved : LeftValue iwidth
  oAux : Bool
  mpyR : BitVec (cwidth + iwidth + 3)
  mpyI : BitVec (cwidth + iwidth + 3)
  rndLeftR : BitVec owidth
  rndLeftI : BitVec owidth
  rndRightR : BitVec owidth
  rndRightI : BitVec owidth
  deriving DecidableEq, Inhabited, Repr

namespace HwBfly

variable {iwidth cwidth owidth : Nat}

/-- A sum of two signed values, one bit wider. -/
def wideAdd {width : Nat} (first second : BitVec width) : BitVec (width + 1) :=
  first.signExtend (width + 1) + second.signExtend (width + 1)

/-- A difference of two signed values, one bit wider. -/
def wideSub {width : Nat} (first second : BitVec width) : BitVec (width + 1) :=
  first.signExtend (width + 1) - second.signExtend (width + 1)

variable (bfly : HwBfly iwidth cwidth owidth)

def mpyPipeV (ce : Bool) : Bool := ce || decide (bfly.cePhase < 2)

/-- `mpy_pipe_vc * mpy_pipe_vd`. -/
def mpyProduct : BitVec (cwidth + iwidth + 3) :=
  bfly.mpyPipeC.top.signExtend _ * bfly.mpyPipeD.top.signExtend _

def wOne : BitVec (cwidth + iwidth + 3) := bfly.rp2One.signExtend _

def wTwo : BitVec (cwidth + iwidth + 3) := bfly.rp2Two.signExtend _

/-- `left_sr`, `left_si`: the sums scaled as the coefficients are. -/
def leftS (cwidth : Nat) (sum : BitVec (iwidth + 1)) : BitVec (iwidth + cwidth + 1) :=
  sum.signExtend (iwidth + cwidth + 1) <<< (cwidth - 2)

/-- One rising edge. -/
def step (shift : Nat) (reset ce : Bool) (aux : Bool) (input : BflyInput iwidth cwidth) :
    HwBfly iwidth cwidth owidth where
  rLeft := if ce then input.left else bfly.rLeft
  rRight := if ce then input.right else bfly.rRight
  rAux := if reset then false else if ce then aux else bfly.rAux
  rAux2 := if reset then false else if ce then bfly.rAux else bfly.rAux2
  rCoef := if ce then input.coef else bfly.rCoef
  irCoefR := if ce then bfly.rCoef.re else bfly.irCoefR
  irCoefI := if ce then bfly.rCoef.im else bfly.irCoefI
  rSumR := if ce then wideAdd bfly.rLeft.re bfly.rRight.re else bfly.rSumR
  rSumI := if ce then wideAdd bfly.rLeft.im bfly.rRight.im else bfly.rSumI
  rDifR := if ce then wideSub bfly.rLeft.re bfly.rRight.re else bfly.rDifR
  rDifI := if ce then wideSub bfly.rLeft.im bfly.rRight.im else bfly.rDifI
  leftv :=
    if reset then ⟨false, 0, 0⟩
    else if ce then ⟨bfly.rAux2, bfly.rSumR, bfly.rSumI⟩
    else bfly.leftv
  leftvv := if reset then ⟨false, 0, 0⟩ else if ce then bfly.leftv else bfly.leftvv
  cePhase :=
    if reset then 3
    else if ce then 0
    else if bfly.cePhase ≠ 3 then bfly.cePhase + 1
    else bfly.cePhase
  mpyPipeC :=
    if bfly.cePhase = 0 then
      ⟨bfly.irCoefR.signExtend _, bfly.irCoefI.signExtend _, wideAdd bfly.irCoefI bfly.irCoefR⟩
    else if bfly.mpyPipeV ce then bfly.mpyPipeC.shift
    else bfly.mpyPipeC
  mpyPipeD :=
    if bfly.cePhase = 0 then
      ⟨bfly.rDifR.signExtend _, bfly.rDifI.signExtend _, wideAdd bfly.rDifR bfly.rDifI⟩
    else if bfly.mpyPipeV ce then bfly.mpyPipeD.shift
    else bfly.mpyPipeD
  mpyPipeOut := if bfly.mpyPipeV ce then bfly.mpyProduct else bfly.mpyPipeOut
  rpOne := if ce then bfly.mpyPipeOut.setWidth _ else bfly.rpOne
  rpTwo := if bfly.cePhase = 0 then bfly.mpyPipeOut.setWidth _ else bfly.rpTwo
  rpThree := if bfly.cePhase = 1 then bfly.mpyPipeOut else bfly.rpThree
  rp2One := if ce then bfly.rpOne else bfly.rp2One
  rp2Two := if ce then bfly.rpTwo else bfly.rp2Two
  rp2Three := if ce then bfly.rpThree else bfly.rp2Three
  leftSaved := if reset then ⟨false, 0, 0⟩ else if ce then bfly.leftvv else bfly.leftSaved
  oAux := if reset then false else if ce then bfly.leftSaved.aux else bfly.oAux
  mpyR := if ce then bfly.wOne - bfly.wTwo else bfly.mpyR
  mpyI := if ce then bfly.rp2Three - bfly.wOne - bfly.wTwo else bfly.mpyI
  rndLeftR :=
    if ce then convround owidth (shift + 2) (leftS cwidth bfly.leftSaved.sumR)
    else bfly.rndLeftR
  rndLeftI :=
    if ce then convround owidth (shift + 2) (leftS cwidth bfly.leftSaved.sumI)
    else bfly.rndLeftI
  rndRightR := if ce then convround owidth (shift + 4) bfly.mpyR else bfly.rndRightR
  rndRightI := if ce then convround owidth (shift + 4) bfly.mpyI else bfly.rndRightI

def out : BflyOutput owidth := ⟨⟨bfly.rndLeftR, bfly.rndLeftI⟩, ⟨bfly.rndRightR, bfly.rndRightI⟩⟩

/-- As a circuit: `i_aux` goes in with its inputs and comes out with their results. -/
def circuit (iwidth cwidth owidth shift : Nat) :
    Enabled (HwBfly iwidth cwidth owidth) (Marked (BflyInput iwidth cwidth))
      (Marked (BflyOutput owidth)) where
  step bfly reset ce input := bfly.step shift reset ce input.sync input.data
  out bfly := ⟨bfly.oAux, bfly.out⟩

/-! ### What it computes -/

section Result

variable (input : BflyInput iwidth cwidth)

def product (first : BitVec (cwidth + 1)) (second : BitVec (iwidth + 2)) :
    BitVec (cwidth + iwidth + 3) :=
  first.signExtend _ * second.signExtend _

def difR : BitVec (iwidth + 1) := wideSub input.left.re input.right.re

def difI : BitVec (iwidth + 1) := wideSub input.left.im input.right.im

/-- What the coefficient pipe takes in, and the data pipe. -/
def pipeC : MpyPipe (cwidth + 1) :=
  ⟨input.coef.re.signExtend _, input.coef.im.signExtend _, wideAdd input.coef.im input.coef.re⟩

def pipeD : MpyPipe (iwidth + 2) :=
  ⟨(difR input).signExtend _, (difI input).signExtend _, wideAdd (difR input) (difI input)⟩

def one : BitVec (cwidth + iwidth + 3) := product (pipeC input).top (pipeD input).top

def two : BitVec (cwidth + iwidth + 3) := product (pipeC input).next (pipeD input).next

def three : BitVec (cwidth + iwidth + 3) := product (pipeC input).last (pipeD input).last

/-- `w_one` of a product that went through `p_one`. -/
def trimmed (wide : BitVec (cwidth + iwidth + 3)) : BitVec (cwidth + iwidth + 3) :=
  (wide.setWidth (iwidth + 1 + cwidth)).signExtend _

def resultR : BitVec (cwidth + iwidth + 3) := trimmed (one input) - trimmed (two input)

def resultI : BitVec (cwidth + iwidth + 3) :=
  three input - trimmed (one input) - trimmed (two input)

def result (shift : Nat) : BflyOutput owidth where
  left :=
    ⟨convround owidth (shift + 2)
        (leftS cwidth (wideAdd input.left.re input.right.re)),
      convround owidth (shift + 2)
        (leftS cwidth (wideAdd input.left.im input.right.im))⟩
  right :=
    ⟨convround owidth (shift + 4) (resultR input), convround owidth (shift + 4) (resultI input)⟩

end Result

/-! ### The pipeline -/

variable {bfly} {inputs : List (Marked (BflyInput iwidth cwidth))} {shift : Nat}

structure Marks (inputs : List (Marked (BflyInput iwidth cwidth)))
    (bfly : HwBfly iwidth cwidth owidth) : Prop where
  latched : bfly.rAux = mark inputs 0
  added : bfly.rAux2 = mark inputs 1
  held : bfly.leftv.aux = mark inputs 2
  held2 : bfly.leftvv.aux = mark inputs 3
  saved : bfly.leftSaved.aux = mark inputs 4
  out : bfly.oAux = mark inputs 5

theorem marks {gap : Nat} (paced : (circuit iwidth cwidth owidth shift).Paced 0 inputs gap bfly) :
    Marks inputs bfly := by
  induction paced with
  | reset bfly ce input => constructor <;> simp [circuit, step]
  | idle input _ ih =>
      constructor <;>
        simp [circuit, step, ih.latched, ih.added, ih.held, ih.held2, ih.saved, ih.out]
  | ce input _ _ ih =>
      constructor <;> simp [circuit, step, ih.latched, ih.added, ih.held, ih.held2, ih.saved]

/-- The registers that move at an enable only. -/
structure Stages (inputs : List (Marked (BflyInput iwidth cwidth)))
    (bfly : HwBfly iwidth cwidth owidth) (shift : Nat) : Prop where
  latched : ∀ item, back inputs 0 = some item →
    bfly.rLeft = item.data.left ∧ bfly.rRight = item.data.right ∧ bfly.rCoef = item.data.coef
  added : ∀ item, back inputs 1 = some item →
    bfly.rSumR = wideAdd item.data.left.re item.data.right.re ∧
      bfly.rSumI = wideAdd item.data.left.im item.data.right.im ∧
      bfly.rDifR = difR item.data ∧ bfly.rDifI = difI item.data ∧
      bfly.irCoefR = item.data.coef.re ∧ bfly.irCoefI = item.data.coef.im
  held : ∀ item, back inputs 2 = some item →
    bfly.leftv.sumR = wideAdd item.data.left.re item.data.right.re ∧
      bfly.leftv.sumI = wideAdd item.data.left.im item.data.right.im
  held2 : ∀ item, back inputs 3 = some item →
    bfly.leftvv.sumR = wideAdd item.data.left.re item.data.right.re ∧
      bfly.leftvv.sumI = wideAdd item.data.left.im item.data.right.im
  saved : ∀ item, back inputs 4 = some item →
    bfly.leftSaved.sumR = wideAdd item.data.left.re item.data.right.re ∧
      bfly.leftSaved.sumI = wideAdd item.data.left.im item.data.right.im
  combined : ∀ item, back inputs 4 = some item →
    bfly.mpyR = resultR item.data ∧ bfly.mpyI = resultI item.data
  out : ∀ item, back inputs 5 = some item → bfly.out = result item.data shift

/-- The products of the enable before the last, all three through the multiplier. -/
structure Multiplied (inputs : List (Marked (BflyInput iwidth cwidth)))
    (bfly : HwBfly iwidth cwidth owidth) : Prop where
  products : ∀ item, back inputs 3 = some item →
    bfly.rp2One = (one item.data).setWidth _ ∧ bfly.rp2Two = (two item.data).setWidth _ ∧
      bfly.rp2Three = three item.data

/-- The multiplier, a given number of clocks behind an enable. -/
inductive Multiplies (inputs : List (Marked (BflyInput iwidth cwidth)))
    (bfly : HwBfly iwidth cwidth owidth) : Nat → Prop where
  | first : bfly.cePhase = 0 →
      (∀ item, back inputs 2 = some item →
        bfly.rpOne = (one item.data).setWidth _ ∧ bfly.mpyPipeOut = two item.data ∧
          bfly.mpyPipeC.top = (pipeC item.data).last ∧
          bfly.mpyPipeD.top = (pipeD item.data).last) →
      Multiplies inputs bfly 1
  | second : bfly.cePhase = 1 →
      (∀ item, back inputs 2 = some item →
        bfly.rpOne = (one item.data).setWidth _ ∧ bfly.rpTwo = (two item.data).setWidth _ ∧
          bfly.mpyPipeOut = three item.data) →
      (∀ item, back inputs 1 = some item →
        bfly.mpyPipeC = pipeC item.data ∧ bfly.mpyPipeD = pipeD item.data) →
      Multiplies inputs bfly 2
  | third {gap : Nat} : 3 ≤ gap → bfly.cePhase = 2 ∨ bfly.cePhase = 3 →
      (∀ item, back inputs 2 = some item →
        bfly.rpOne = (one item.data).setWidth _ ∧ bfly.rpTwo = (two item.data).setWidth _ ∧
          bfly.rpThree = three item.data) →
      (∀ item, back inputs 1 = some item →
        bfly.mpyPipeOut = one item.data ∧ bfly.mpyPipeC = (pipeC item.data).shift ∧
          bfly.mpyPipeD = (pipeD item.data).shift) →
      Multiplies inputs bfly gap

theorem Stages.idle {aux : Bool} {input : BflyInput iwidth cwidth}
    (stages : Stages inputs bfly shift) :
    Stages inputs (bfly.step shift false false aux input) shift :=
  ⟨stages.latched, stages.added, stages.held, stages.held2, stages.saved, stages.combined,
    stages.out⟩

theorem Stages.ce {item : Marked (BflyInput iwidth cwidth)} (stages : Stages inputs bfly shift)
    (multiplied : Multiplied inputs bfly) :
    Stages (inputs ++ [item]) (bfly.step shift false true item.sync item.data) shift where
  latched past found := by
    rw [back_zero, Option.some.injEq] at found
    subst found
    exact ⟨rfl, rfl, rfl⟩
  added past found := by
    rw [back_succ] at found
    obtain ⟨left, right, coef⟩ := stages.latched past found
    simp [step, left, right, coef, difR, difI]
  held past found := by
    rw [back_succ] at found
    obtain ⟨sumR, sumI, _⟩ := stages.added past found
    exact ⟨sumR, sumI⟩
  held2 past found := by
    rw [back_succ] at found
    exact stages.held past found
  saved past found := by
    rw [back_succ] at found
    exact stages.held2 past found
  combined past found := by
    rw [back_succ] at found
    obtain ⟨first, second, third⟩ := multiplied.products past found
    simp [step, wOne, wTwo, first, second, third, resultR, resultI, trimmed]
  out past found := by
    rw [back_succ] at found
    obtain ⟨sumR, sumI⟩ := stages.saved past found
    obtain ⟨mpyR, mpyI⟩ := stages.combined past found
    simp [step, HwBfly.out, result, sumR, sumI, mpyR, mpyI]

theorem Multiplies.idle {gap : Nat} {aux : Bool} {input : BflyInput iwidth cwidth}
    (multiplies : Multiplies inputs bfly gap) (stages : Stages inputs bfly shift) :
    Multiplies inputs (bfly.step shift false false aux input) (gap + 1) := by
  cases multiplies with
  | first phase earlier =>
      refine .second ?_ (fun past found => ?_) (fun past found => ?_)
      · simp [step, phase]
      · obtain ⟨one, two, topC, topD⟩ := earlier past found
        simp [step, phase, mpyPipeV, mpyProduct, one, two, topC, topD, three, product]
      · obtain ⟨_, _, difR, difI, coefR, coefI⟩ := stages.added past found
        simp [step, phase, pipeC, pipeD, difR, difI, coefR, coefI]
  | second phase earlier loaded =>
      refine .third (by omega) ?_ (fun past found => ?_) (fun past found => ?_)
      · simp [step, phase]
      · obtain ⟨one, two, out⟩ := earlier past found
        simp [step, phase, one, two, out]
      · obtain ⟨pipeC, pipeD⟩ := loaded past found
        simp [step, phase, mpyPipeV, mpyProduct, pipeC, pipeD, one, product]
  | third settled phase earlier loaded =>
      refine .third (by omega) ?_ (fun past found => ?_) (fun past found => ?_)
      · rcases phase with phase | phase <;> simp [step, phase]
      · rcases phase with phase | phase <;> simpa [step, phase] using earlier past found
      · rcases phase with phase | phase <;>
          simpa [step, phase, mpyPipeV] using loaded past found

theorem Multiplies.ce {gap : Nat} {item : Marked (BflyInput iwidth cwidth)} (due : 3 ≤ gap)
    (multiplies : Multiplies inputs bfly gap) :
    Multiplies (inputs ++ [item]) (bfly.step shift false true item.sync item.data) 1 := by
  cases multiplies with
  | first => omega
  | second => omega
  | third settled phase earlier loaded =>
      refine .first (by simp [step]) (fun past found => ?_)
      rw [back_succ] at found
      obtain ⟨out, pipeC, pipeD⟩ := loaded past found
      rcases phase with phase | phase <;>
        simp [step, phase, mpyPipeV, mpyProduct, out, pipeC, pipeD, MpyPipe.shift, two, product]

theorem Multiplies.multiplied {gap : Nat} {item : Marked (BflyInput iwidth cwidth)}
    (due : 3 ≤ gap) (multiplies : Multiplies inputs bfly gap) :
    Multiplied (inputs ++ [item]) (bfly.step shift false true item.sync item.data) := by
  cases multiplies with
  | first => omega
  | second => omega
  | third settled phase earlier loaded =>
      refine ⟨fun past found => ?_⟩
      rw [back_succ] at found
      exact earlier past found

structure Running (inputs : List (Marked (BflyInput iwidth cwidth)))
    (bfly : HwBfly iwidth cwidth owidth) (shift gap : Nat) : Prop where
  stages : Stages inputs bfly shift
  multiplied : Multiplied inputs bfly
  multiplies : Multiplies inputs bfly gap

theorem running {gap : Nat} (paced : (circuit iwidth cwidth owidth shift).Paced 3 inputs gap bfly) :
    Running inputs bfly shift gap := by
  induction paced with
  | reset bfly ce input =>
      refine ⟨⟨?_, ?_, ?_, ?_, ?_, ?_, ?_⟩, ⟨?_⟩, .third (Nat.le_refl 3) (.inr ?_) ?_ ?_⟩
      all_goals first | (intro item found; cases found) | simp [circuit, step]
  | idle input _ ih =>
      exact ⟨ih.stages.idle, ⟨ih.multiplied.products⟩, ih.multiplies.idle ih.stages⟩
  | ce input _ due ih =>
      exact ⟨ih.stages.ce ih.multiplied, ih.multiplies.multiplied due, ih.multiplies.ce due⟩

/-- Six enables behind its inputs it shows their results. -/
theorem relays (iwidth cwidth owidth shift : Nat) :
    Relays (circuit iwidth cwidth owidth shift) 3 6
      (fun stream index => ⟨(stream index).sync, result (stream index).data shift⟩) where
  leads _ marked := marked
  quiet items gap bfly start paced quiet short := (marks paced).out.trans (quiet.mark_eq short)
  shows := by
    intro items gap bfly start stream index paced starts place
    obtain ⟨_, free⟩ := paced.relax
    have aux : bfly.oAux = (stream index).sync := (marks free).out.trans (starts.mark_eq (by omega))
    have shown : bfly.out = result (stream index).data shift :=
      (running paced).stages.out _ (starts.back_eq (by omega))
    rw [← aux, ← shown]
    rfl

end HwBfly

end ZipVersa.Fft
