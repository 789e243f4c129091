import ZipVersa.Lib.Clocked

/-! Circuits that carry items through in order. `Along` restricts the inputs of a
run by the states it meets; a circuit that `Conveys` holds what it has taken and
not yet given. -/

set_option autoImplicit false

namespace ZipVersa.Lib

variable {State Input Item : Type}

/-- Every input of a run is allowed in the state it finds. -/
def Along (step : State → Input → State) (Allowed : State → Input → Prop) :
    State → List Input → Prop
  | _, [] => True
  | state, input :: rest => Allowed state input ∧ Along step Allowed (step state input) rest

instance decidableAlong (step : State → Input → State) (Allowed : State → Input → Prop)
    [∀ state input, Decidable (Allowed state input)] :
    (state : State) → (inputs : List Input) → Decidable (Along step Allowed state inputs)
  | _, [] => inferInstanceAs (Decidable True)
  | state, input :: rest =>
      @instDecidableAnd _ _ inferInstance (decidableAlong step Allowed (step state input) rest)

/-- A clock takes items in at one end and gives items out at the other. -/
def Conveys (step : State → Input → State) (Allowed : State → Input → Prop)
    (takes gives : State → Input → List Item) (Holds : State → List Item → Prop) : Prop :=
  ∀ state input items, Holds state items → Allowed state input →
    ∃ left, items ++ takes state input = gives state input ++ left ∧ Holds (step state input) left

variable {step : State → Input → State} {Allowed : State → Input → Prop}
  {takes gives : State → Input → List Item} {Holds : State → List Item → Prop}

theorem along_of_all (all : ∀ state input, Allowed state input) (state : State)
    (inputs : List Input) : Along step Allowed state inputs := by
  induction inputs generalizing state with
  | nil => exact trivial
  | cons input rest ih => exact ⟨all state input, ih (step state input)⟩

theorem along_of_inputs {Calm : Input → Prop} {inputs : List Input}
    (all : ∀ input ∈ inputs, Calm input) (state : State) :
    Along step (fun _ input => Calm input) state inputs := by
  induction inputs generalizing state with
  | nil => exact trivial
  | cons input rest ih =>
      refine ⟨all input List.mem_cons_self, ih (fun other member => ?_) (step state input)⟩
      exact all other (List.mem_cons_of_mem _ member)

/-- An invariant kept by every allowed input holds at the end of a run. -/
theorem along_invariant {Invariant : State → Prop}
    (kept : ∀ state input, Invariant state → Allowed state input → Invariant (step state input))
    {state : State} (start : Invariant state) {inputs : List Input}
    (allowed : Along step Allowed state inputs) : Invariant (clocked step state inputs) := by
  induction inputs generalizing state with
  | nil => exact start
  | cons input rest ih => exact ih (kept state input start allowed.1) allowed.2

/-- Nothing is lost, repeated or overtaken in a run. -/
theorem Conveys.run (conveys : Conveys step Allowed takes gives Holds) {state : State}
    {items : List Item} (holds : Holds state items) {inputs : List Input}
    (allowed : Along step Allowed state inputs) :
    ∃ left, items ++ observed step takes state inputs = observed step gives state inputs ++ left ∧
      Holds (clocked step state inputs) left := by
  induction inputs generalizing state items with
  | nil => exact ⟨items, List.append_nil items, holds⟩
  | cons input rest ih =>
      obtain ⟨middle, now, kept⟩ := conveys state input items holds allowed.1
      obtain ⟨left, later, last⟩ := ih kept allowed.2
      refine ⟨left, ?_, last⟩
      rw [observed, observed, ← List.append_assoc, now, List.append_assoc, later,
        List.append_assoc]

end ZipVersa.Lib
