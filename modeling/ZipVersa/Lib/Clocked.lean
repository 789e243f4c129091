import Mathlib.Algebra.Ring.Nat
import Mathlib.Tactic.Common

/-! Synchronous circuits. A circuit is a next-state function; `observe` reads
what happens at a clock from the registers and the inputs before the edge.
`Spaced` streams carry one item at a time with a minimum number of idle clocks
after each, and `Settling` is the rule for circuits that need that long. -/

set_option autoImplicit false

namespace ZipVersa.Lib

variable {State Input Event Item Model : Type}

/-- The registers after a list of clocks. -/
def clocked (step : State → Input → State) (state : State) (inputs : List Input) : State :=
  inputs.foldl step state

/-- What is observed on the way. -/
def observed (step : State → Input → State) (observe : State → Input → List Event) :
    State → List Input → List Event
  | _, [] => []
  | state, input :: rest => observe state input ++ observed step observe (step state input) rest

variable {step : State → Input → State} {observe : State → Input → List Event}

@[simp] theorem clocked_nil (state : State) : clocked step state [] = state := rfl

@[simp] theorem clocked_cons (state : State) (input : Input) (rest : List Input) :
    clocked step state (input :: rest) = clocked step (step state input) rest := rfl

theorem clocked_append (state : State) (first second : List Input) :
    clocked step state (first ++ second) = clocked step (clocked step state first) second :=
  List.foldl_append

theorem observed_append (state : State) (first second : List Input) :
    observed step observe state (first ++ second) =
      observed step observe state first ++
        observed step observe (clocked step state first) second := by
  induction first generalizing state with
  | nil => rfl
  | cons input rest ih => simp only [List.cons_append, observed, ih, clocked_cons,
      List.append_assoc]

theorem observed_map (image : Event → Item) (state : State) (inputs : List Input) :
    observed step (fun state input => (observe state input).map image) state inputs =
      (observed step observe state inputs).map image := by
  induction inputs generalizing state with
  | nil => rfl
  | cons input rest ih => rw [observed, observed, List.map_append, ih]

theorem observed_filterMap (pick : Event → Option Item) (state : State) (inputs : List Input) :
    observed step (fun state input => (observe state input).filterMap pick) state inputs =
      (observed step observe state inputs).filterMap pick := by
  induction inputs generalizing state with
  | nil => rfl
  | cons input rest ih => rw [observed, observed, List.filterMap_append, ih]

/-- An invariant kept by the clocks of a run holds at its end. -/
theorem clocked_invariant {Holds : State → Prop} {inputs : List Input}
    (kept : ∀ state, ∀ input ∈ inputs, Holds state → Holds (step state input))
    {state : State} (start : Holds state) : Holds (clocked step state inputs) := by
  induction inputs generalizing state with
  | nil => exact start
  | cons input rest ih =>
      exact ih (fun later other member => kept later other (.tail _ member))
        (kept state input (.head _) start)

/-- A property kept by the steps of a run that may stop holds at its end. -/
theorem foldlM_keeps {step : State → Input → Option State} {Holds : State → Prop}
    (kept : ∀ state after input, Holds state → step state input = some after → Holds after)
    {state last : State} (start : Holds state) {inputs : List Input}
    (done : inputs.foldlM step state = some last) : Holds last := by
  induction inputs generalizing state with
  | nil => exact Option.some.inj done ▸ start
  | cons input rest ih =>
      rw [List.foldlM_cons] at done
      obtain ⟨between, now, later⟩ := Option.bind_eq_some_iff.mp done
      exact ih (kept _ _ _ start now) later

/-- What holds of everything that can be observed holds of all that is. -/
theorem observed_all {Holds : Event → Prop}
    (each : ∀ state input, ∀ event ∈ observe state input, Holds event) {state : State}
    {inputs : List Input} : ∀ event ∈ observed step observe state inputs, Holds event := by
  induction inputs generalizing state with
  | nil => intro event member; cases member
  | cons input rest ih =>
      intro event member
      rcases List.mem_append.mp member with now | later
      · exact each state input event now
      · exact ih event later

/-- A circuit with a measure that falls at every clock that `ticks` until it is
done, and never rises, is done after enough of them. -/
theorem clocked_drains {Done : State → Prop} {measure : State → Nat} {ticks : Input → Bool}
    {inputs : List Input}
    (kept : ∀ state, ∀ input ∈ inputs, Done state → Done (step state input))
    (falls : ∀ state, ∀ input ∈ inputs, ¬ Done state →
      measure (step state input) + (if ticks input then 1 else 0) ≤ measure state)
    (positive : ∀ state, measure state = 0 → Done state)
    {state : State} (enough : measure state ≤ inputs.countP ticks) :
    Done (clocked step state inputs) := by
  induction inputs generalizing state with
  | nil => exact positive state (Nat.le_zero.mp enough)
  | cons input rest ih =>
      by_cases done : Done state
      · exact clocked_invariant kept done
      · refine ih (fun other clock member => kept other clock (.tail _ member))
          (fun other clock member => falls other clock (.tail _ member)) ?_
        have := falls state input (.head _) done
        rw [List.countP_cons] at enough
        omega

/-- The registers at each clock of an endless stream of inputs. -/
def streamed (step : State → Input → State) (state : State) (inputs : Nat → Input) : Nat → State
  | 0 => state
  | time + 1 => step (streamed step state inputs time) (inputs time)

/-- An endless stream that starts with these clocks. -/
def endless (inputs : List Input) (after : Input) (time : Nat) : Input := inputs.getD time after

theorem streamed_first (state : State) (inputs : Nat → Input) (time : Nat) :
    streamed step state inputs (time + 1) =
      streamed step (step state (inputs 0)) (fun time => inputs (time + 1)) time := by
  induction time with
  | zero => rfl
  | succ time ih => rw [streamed, ih, streamed]

theorem streamed_take {inputs : List Input} {time : Nat} (within : time ≤ inputs.length)
    (state : State) (after : Input) :
    streamed step state (endless inputs after) time = clocked step state (inputs.take time) := by
  induction inputs generalizing state time with
  | nil =>
      rw [Nat.le_zero.mp within]
      rfl
  | cons input rest ih =>
      cases time with
      | zero => rfl
      | succ time =>
          exact (streamed_first state _ time).trans (ih (Nat.le_of_succ_le_succ within) _)

/-- Periods of equal length, the last of them `last`: what holds at the start of one is
kept to its end, where the next one starts. -/
theorem periodic {Holds : Nat → Nat → Prop} {period last : Nat} (start : Holds 0 0)
    (hold : ∀ k i, k ≤ last → i + 1 < period → Holds k i → Holds k (i + 1))
    (turn : ∀ k i, k < last → i + 1 = period → Holds k i → Holds (k + 1) 0) :
    ∀ k ≤ last, ∀ i < period, Holds k i := by
  intro k
  induction k with
  | zero =>
      intro _ i
      induction i with
      | zero => exact fun _ => start
      | succ i ih => exact fun inside => hold 0 i (Nat.zero_le _) inside (ih (by omega))
  | succ k before =>
      intro within i
      induction i with
      | zero =>
          intro positive
          exact turn k (period - 1) within (by omega) (before (by omega) (period - 1) (by omega))
      | succ i ih => exact fun inside => hold (k + 1) i within inside (ih (by omega))

/-! ### Spaced streams -/

section Spaced

variable (carries : Input → Option Item) (gap : Nat)

/-- The stream carries the items in order, each followed by at least `gap`
clocks that carry nothing. -/
inductive Spaced : List Input → List Item → Prop where
  | nil : Spaced [] []
  | idle {input : Input} {inputs : List Input} {items : List Item} :
      carries input = none → Spaced inputs items → Spaced (input :: inputs) items
  | item {input : Input} {quiet inputs : List Input} {item : Item} {items : List Item} :
      carries input = some item → quiet.length = gap → (∀ clock ∈ quiet, carries clock = none) →
      Spaced inputs items → Spaced (input :: quiet ++ inputs) (item :: items)

/-- A stream of more than the items is spaced as its items are. -/
theorem spaced_map_iff {Wide : Type} {carries : Input → Option Item} {gap : Nat} (view : Wide → Input)
    {inputs : List Wide} {items : List Item} :
    Spaced carries gap (inputs.map view) items ↔
      Spaced (fun wide => carries (view wide)) gap inputs items := by
  constructor
  · intro spaced
    generalize same : inputs.map view = stream at spaced
    induction spaced generalizing inputs with
    | nil =>
        rw [List.map_eq_nil_iff.mp same]
        exact .nil
    | idle none _ ih =>
        obtain ⟨wide, rest, rfl, rfl, later⟩ := List.map_eq_cons_iff.mp same
        exact .idle none (ih later)
    | item carried size silent _ ih =>
        obtain ⟨front, rest, rfl, first, later⟩ := List.map_eq_append_iff.mp same
        obtain ⟨wide, quiet, rfl, rfl, hushed⟩ := List.map_eq_cons_iff.mp first
        refine .item carried (by rw [← List.length_map view, hushed, size]) ?_ (ih later)
        intro clock member
        exact silent _ (by rw [← hushed]; exact List.mem_map_of_mem member)
  · intro spaced
    induction spaced with
    | nil => exact .nil
    | idle none _ ih => exact .idle none ih
    | item carried size silent _ ih =>
        rw [List.cons_append, List.map_cons, List.map_append, ← List.cons_append]
        refine .item carried (by rw [List.length_map, size]) ?_ ih
        intro clock member
        obtain ⟨wide, among, rfl⟩ := List.mem_map.mp member
        exact silent wide among

theorem Spaced.append {carries : Input → Option Item} {gap : Nat} {first second : List Input}
    {before later : List Item} (start : Spaced carries gap first before)
    (rest : Spaced carries gap second later) :
    Spaced carries gap (first ++ second) (before ++ later) := by
  induction start with
  | nil => exact rest
  | idle none _ ih => exact .idle none ih
  | item carried size silent _ ih =>
      rw [List.append_assoc, List.cons_append]
      exact .item carried size silent ih

theorem Spaced.silent {carries : Input → Option Item} {gap : Nat} {inputs : List Input}
    (silent : ∀ input ∈ inputs, carries input = none) : Spaced carries gap inputs [] := by
  induction inputs with
  | nil => exact .nil
  | cons input rest ih =>
      exact .idle (silent input (.head _)) (ih fun other member => silent other (.tail _ member))

/-- A spaced stream as it comes in, with the number of clocks since its last
item; at the start any item may come. -/
inductive Arriving : List Input → List Item → Nat → Prop where
  | start : Arriving [] [] gap
  | idle {inputs : List Input} {items : List Item} {since : Nat} {input : Input} :
      Arriving inputs items since → carries input = none →
      Arriving (inputs ++ [input]) items (since + 1)
  | item {inputs : List Input} {items : List Item} {since : Nat} {input : Input} {item : Item} :
      Arriving inputs items since → gap ≤ since → carries input = some item →
      Arriving (inputs ++ [input]) (items ++ [item]) 0

/-- Enough silence completes it. -/
theorem Arriving.spaced {carries : Input → Option Item} {gap since : Nat} {inputs : List Input}
    {items : List Item} (arriving : Arriving carries gap inputs items since) {quiet : List Input}
    (silent : ∀ input ∈ quiet, carries input = none) (enough : gap ≤ since + quiet.length) :
    Spaced carries gap (inputs ++ quiet) items := by
  induction arriving generalizing quiet with
  | start => exact Spaced.silent silent
  | @idle inputs items since input _ none ih =>
      rw [List.append_assoc, List.singleton_append]
      refine ih ?_ (by rw [List.length_cons]; omega)
      intro clock member
      rcases List.mem_cons.mp member with rfl | later
      · exact none
      · exact silent clock later
  | @item inputs items since input item _ due carried ih =>
      have before := @ih [] (fun clock member => nomatch member) due
      rw [List.append_nil] at before
      rw [List.append_assoc]
      refine before.append ?_
      have gap' : (quiet.take gap).length = gap := by
        rw [List.length_take]
        omega
      have parts : Spaced carries gap (input :: quiet.take gap ++ quiet.drop gap) [item] :=
        .item carried gap' (fun clock member => silent clock (List.mem_of_mem_take member))
          (Spaced.silent fun clock member => silent clock (List.mem_of_mem_drop member))
      rw [List.cons_append, List.take_append_drop] at parts
      exact parts

/-- A circuit that digests one item within `gap` clocks: `abstracts` relates
its registers, when nothing is under way, to a state of `next` and `emit`. -/
structure Settling (step : State → Input → State) (observe : State → Input → List Event)
    (abstracts : State → Model → Prop) (next : Model → Item → Model)
    (emit : Model → Item → List Event) : Prop where
  idle : ∀ state model input, abstracts state model → carries input = none →
    abstracts (step state input) model ∧ observe state input = []
  item : ∀ state model input item quiet, abstracts state model → carries input = some item →
    quiet.length = gap → (∀ clock ∈ quiet, carries clock = none) →
    abstracts (clocked step state (input :: quiet)) (next model item) ∧
      observed step observe state (input :: quiet) = emit model item

variable {carries gap}
variable {abstracts : State → Model → Prop} {next : Model → Item → Model}
  {emit : Model → Item → List Event}

/-- On a spaced stream the circuit does item by item what the model does. -/
theorem Settling.run (settling : Settling carries gap step observe abstracts next emit)
    {inputs : List Input} {items : List Item} (spaced : Spaced carries gap inputs items)
    {state : State} {model : Model} (related : abstracts state model) :
    abstracts (clocked step state inputs) (clocked next model items) ∧
      observed step observe state inputs = observed next emit model items := by
  induction spaced generalizing state model with
  | nil => exact ⟨related, rfl⟩
  | idle none _ ih =>
      obtain ⟨kept, silent⟩ := settling.idle _ _ _ related none
      obtain ⟨last, events⟩ := ih kept
      exact ⟨last, by rw [observed, silent, List.nil_append, events]⟩
  | item carried size quiet _ ih =>
      obtain ⟨settled, emitted⟩ := settling.item _ _ _ _ _ related carried size quiet
      obtain ⟨last, events⟩ := ih settled
      refine ⟨by rw [clocked_append]; exact last, ?_⟩
      rw [observed_append, emitted, events]
      rfl

end Spaced

/-! ### Inputs with a part of their own to keep -/

/-- Each input is legal where it comes. -/
def Lawful (step : State → Input → State) (Legal : State → Input → Prop) :
    State → List Input → Prop
  | _, [] => True
  | state, input :: rest => Legal state input ∧ Lawful step Legal (step state input) rest

instance decidableLawful {Legal : State → Input → Prop}
    [decide : ∀ state input, Decidable (Legal state input)] :
    (state : State) → (inputs : List Input) → Decidable (Lawful step Legal state inputs)
  | _, [] => inferInstanceAs (Decidable True)
  | state, input :: rest =>
      @instDecidableAnd _ _ (decide state input) (decidableLawful (step state input) rest)

/-- An invariant that legal inputs keep holds at the end of a lawful run. -/
theorem lawful_invariant {Legal : State → Input → Prop} {Holds : State → Prop}
    (kept : ∀ state input, Holds state → Legal state input → Holds (step state input))
    {state : State} (start : Holds state) {inputs : List Input}
    (lawful : Lawful step Legal state inputs) : Holds (clocked step state inputs) := by
  induction inputs generalizing state with
  | nil => exact start
  | cons input rest ih => exact ih (kept state input start lawful.1) lawful.2

end ZipVersa.Lib
