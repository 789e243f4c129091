import ZipVersa.Lib.Clocked

/-! `tfrvalue`: a value carried from one clock to another behind a request and
an acknowledgement, each through two registers of the other clock. -/

set_option autoImplicit false

namespace ZipVersa.Board

open Lib

structure TfrValue (nb : Nat) where
  rAtfr : Bool
  qTfr : Bool
  rBtfr : Bool
  rBack : Bool
  qAck : Bool
  rAack : Bool
  rAval : BitVec nb
  rValue : BitVec nb
  deriving DecidableEq, Repr

/-- Rising edges at one instant: of `i_aclk`, with the value of `i_value` there,
and of `i_bclk`. -/
structure Edge (nb : Nat) where
  a : Option (BitVec nb)
  b : Bool
  deriving DecidableEq, Repr

namespace TfrValue

variable {nb : Nat}

def init : TfrValue nb := ⟨false, false, false, false, false, false, 0, 0⟩

/-- The registers of `i_aclk`. -/
def aEdge (tfr : TfrValue nb) (iValue : BitVec nb) : TfrValue nb :=
  { tfr with
    rAval := if !tfr.rAtfr && !tfr.rAack then iValue else tfr.rAval
    rAtfr :=
      if !tfr.rAtfr && !tfr.rAack then (if iValue ≠ tfr.rAval then true else tfr.rAtfr)
      else if tfr.rAack then false
      else tfr.rAtfr
    qAck := tfr.rBack
    rAack := tfr.qAck }

/-- The registers of `i_bclk`, on top of those of `next`. -/
def bEdge (tfr next : TfrValue nb) : TfrValue nb :=
  { next with
    qTfr := tfr.rAtfr
    rBtfr := tfr.qTfr
    rValue := if tfr.rBtfr && !tfr.rBack then tfr.rAval else tfr.rValue
    rBack :=
      if tfr.rBtfr && !tfr.rBack then true
      else if !tfr.rBtfr then false
      else tfr.rBack }

def step (tfr : TfrValue nb) (edge : Edge nb) : TfrValue nb :=
  let next := match edge.a with
    | some iValue => tfr.aEdge iValue
    | none => tfr
  if edge.b then tfr.bEdge next else next

/-- The value for which a transfer is begun. -/
def captures (tfr : TfrValue nb) (edge : Edge nb) : List (BitVec nb) :=
  match edge.a with
  | some iValue => if !tfr.rAtfr && !tfr.rAack && iValue != tfr.rAval then [iValue] else []
  | none => []

/-- The value `o_value` takes. -/
def delivers (tfr : TfrValue nb) (edge : Edge nb) : List (BitVec nb) :=
  if edge.b && tfr.rBtfr && !tfr.rBack then [tfr.rAval] else []

/-- A transfer is under way in one of the two clock domains. -/
def outstanding (tfr : TfrValue nb) : Bool :=
  tfr.rAtfr || tfr.qTfr || tfr.rBtfr || tfr.rBack || tfr.qAck || tfr.rAack

/-! ### The handshake -/

/-- `r_atfr`, `q_tfr`, `r_btfr`, `r_back`, `q_ack`, `r_aack`: the request runs
down the line and the acknowledgement back, up and then down. -/
def phases : List (Bool × Bool × Bool × Bool × Bool × Bool) :=
  [(false, false, false, false, false, false), (true, false, false, false, false, false),
    (true, true, false, false, false, false), (true, true, true, false, false, false),
    (true, true, true, true, false, false), (true, true, true, true, true, false),
    (true, true, true, true, true, true), (false, true, true, true, true, true),
    (false, false, true, true, true, true), (false, false, false, true, true, true),
    (false, false, false, false, true, true), (false, false, false, false, false, true)]

def bits (tfr : TfrValue nb) : Bool × Bool × Bool × Bool × Bool × Bool :=
  (tfr.rAtfr, tfr.qTfr, tfr.rBtfr, tfr.rBack, tfr.qAck, tfr.rAack)

/-- `captured` has been taken in so far and `delivered` has been shown. Between
its capture and its delivery a value stands in `r_aval`. -/
structure Carries (tfr : TfrValue nb) (captured delivered : List (BitVec nb)) : Prop where
  phase : tfr.bits ∈ phases
  queue : captured = delivered ++ if tfr.rAtfr && !tfr.rBack then [tfr.rAval] else []
  shown : tfr.rValue = delivered.getLast?.getD 0

theorem Carries.start : (init : TfrValue nb).Carries [] [] := ⟨.head _, rfl, rfl⟩

variable {tfr : TfrValue nb} {captured delivered : List (BitVec nb)}

theorem Carries.step (carries : tfr.Carries captured delivered) (edge : Edge nb) :
    (tfr.step edge).Carries (captured ++ tfr.captures edge) (delivered ++ tfr.delivers edge) := by
  obtain ⟨phase, queue, shown⟩ := carries
  obtain ⟨a, b⟩ := edge
  obtain ⟨rAtfr, qTfr, rBtfr, rBack, qAck, rAack, rAval, rValue⟩ := tfr
  subst queue
  subst shown
  simp only [phases, bits, List.mem_cons, Prod.mk.injEq, List.not_mem_nil, or_false] at phase
  -- one case for each of the twelve phases; only the first leaves `r_aval` open
  rcases phase with ⟨rfl, rfl, rfl, rfl, rfl, rfl⟩ | ⟨rfl, rfl, rfl, rfl, rfl, rfl⟩ |
    ⟨rfl, rfl, rfl, rfl, rfl, rfl⟩ | ⟨rfl, rfl, rfl, rfl, rfl, rfl⟩ |
    ⟨rfl, rfl, rfl, rfl, rfl, rfl⟩ | ⟨rfl, rfl, rfl, rfl, rfl, rfl⟩ |
    ⟨rfl, rfl, rfl, rfl, rfl, rfl⟩ | ⟨rfl, rfl, rfl, rfl, rfl, rfl⟩ |
    ⟨rfl, rfl, rfl, rfl, rfl, rfl⟩ | ⟨rfl, rfl, rfl, rfl, rfl, rfl⟩ |
    ⟨rfl, rfl, rfl, rfl, rfl, rfl⟩ | ⟨rfl, rfl, rfl, rfl, rfl, rfl⟩
  case inl =>
    cases a with
    | none =>
        cases b <;>
          constructor <;> simp [TfrValue.step, bEdge, captures, delivers, bits, phases]
    | some iValue =>
        by_cases same : iValue = rAval <;> cases b <;>
          constructor <;> simp [TfrValue.step, aEdge, bEdge, captures, delivers, bits, phases, same]
  all_goals
    cases a <;> cases b <;>
      constructor <;> simp [TfrValue.step, aEdge, bEdge, captures, delivers, bits, phases]

theorem Carries.run (carries : tfr.Carries captured delivered) (edges : List (Edge nb)) :
    (clocked TfrValue.step tfr edges).Carries
      (captured ++ observed TfrValue.step captures tfr edges)
      (delivered ++ observed TfrValue.step delivers tfr edges) := by
  induction edges generalizing tfr captured delivered with
  | nil => simpa [observed] using carries
  | cons edge rest ih =>
      rw [observed, observed, ← List.append_assoc, ← List.append_assoc]
      exact ih (carries.step edge)

/-- Between two transfers all six bits are down, so that only then `r_aval`
moves. -/
theorem Carries.still (carries : tfr.Carries captured delivered) (busy : tfr.outstanding = true)
    (edge : Edge nb) : (tfr.step edge).rAval = tfr.rAval := by
  have held : (!tfr.rAtfr && !tfr.rAack) = false := by
    have phase := carries.phase
    simp only [phases, bits, List.mem_cons, Prod.mk.injEq, List.not_mem_nil, or_false] at phase
    simp only [outstanding] at busy
    grind
  obtain ⟨a, b⟩ := edge
  cases a <;> cases b <;> simp [TfrValue.step, aEdge, bEdge, held]

theorem captures_sublist (tfr : TfrValue nb) (edges : List (Edge nb)) :
    (observed TfrValue.step captures tfr edges).Sublist (edges.filterMap Edge.a) := by
  induction edges generalizing tfr with
  | nil => exact .slnil
  | cons edge rest ih =>
      rw [observed, captures, List.filterMap_cons]
      cases edge.a with
      | none => exact ih _
      | some iValue =>
          dsimp only
          split
          · exact (ih _).cons_cons _
          · exact (ih _).cons _

end TfrValue

open TfrValue

/-- For every interleaving of the two clocks: the values `o_value` takes are,
in order, values of `i_value` at earlier edges of `i_aclk`, none twice and none
left out that was captured, and while a transfer is outstanding `r_aval` does
not move. -/
theorem tfrvalue_transfers {nb : Nat} (edges : List (Edge nb)) :
    (clocked step init edges).rValue = (observed step delivers init edges).getLast?.getD 0 ∧
      observed step delivers init edges <+: observed step captures init edges ∧
      (observed step captures init edges).Sublist (edges.filterMap Edge.a) ∧
      ((clocked step init edges).outstanding = true → ∀ edge,
        ((clocked step init edges).step edge).rAval = (clocked step init edges).rAval) := by
  have carries := Carries.start.run edges
  rw [List.nil_append, List.nil_append] at carries
  exact ⟨carries.shown, ⟨_, carries.queue.symm⟩, captures_sublist init edges, carries.still⟩

end ZipVersa.Board
