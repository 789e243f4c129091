import Mathlib.Data.List.Induction
import ZipVersa.Lib.Clocked

/-! Registers that one event sets and another clears. -/

set_option autoImplicit false

namespace ZipVersa.Lib

variable {State Input : Type}

/-- Something has happened, and nothing has undone it since. Whether it happens
at a clock may depend on the clocks before. -/
def Since (sets : List Input → Input → Prop) (clears : Input → Prop) (inputs : List Input) : Prop :=
  ∃ before input after, inputs = before ++ input :: after ∧ sets before input ∧
    ∀ later ∈ after, ¬ clears later

theorem not_since_nil (sets : List Input → Input → Prop) (clears : Input → Prop) :
    ¬ Since sets clears [] := by
  rintro ⟨before, input, after, split, -⟩
  cases before <;> cases split

theorem since_append {sets : List Input → Input → Prop} {clears : Input → Prop}
    {inputs : List Input} {input : Input} :
    Since sets clears (inputs ++ [input]) ↔
      sets inputs input ∨ (Since sets clears inputs ∧ ¬ clears input) := by
  constructor
  · rintro ⟨before, first, after, split, happened, kept⟩
    rcases List.eq_nil_or_concat after with rfl | ⟨more, last, shape⟩
    · obtain ⟨rfl, same⟩ := List.append_inj' split rfl
      cases same
      exact .inl happened
    · rw [List.concat_eq_append] at shape
      subst shape
      have split' : inputs ++ [input] = (before ++ first :: more) ++ [last] := by
        rw [split, List.append_assoc, List.cons_append]
      obtain ⟨rfl, same⟩ := List.append_inj' split' rfl
      cases same
      refine .inr ⟨⟨before, first, more, rfl, happened, fun later member => ?_⟩, ?_⟩
      · exact kept later (List.mem_append_left _ member)
      · exact kept input (List.mem_append_right _ (List.mem_singleton.mpr rfl))
  · rintro (happens | ⟨⟨before, first, after, rfl, happened, kept⟩, keeps⟩)
    · exact ⟨inputs, input, [], rfl, happens, List.forall_mem_nil _⟩
    · refine ⟨before, first, after ++ [input], by simp, happened, fun later member => ?_⟩
      rcases List.mem_append.mp member with early | now
      · exact kept later early
      · exact List.mem_singleton.mp now ▸ keeps

/-- A register that is set and cleared by what happens, and keeps its value
otherwise, tells what has happened since. -/
theorem clocked_since {step : State → Input → State} {start : State} {flag : State → Prop}
    {sets : List Input → Input → Prop} {clears : Input → Prop} (low : ¬ flag start)
    (keeps : ∀ inputs input, flag (step (clocked step start inputs) input) ↔
      sets inputs input ∨ (flag (clocked step start inputs) ∧ ¬ clears input))
    (inputs : List Input) : flag (clocked step start inputs) ↔ Since sets clears inputs := by
  induction inputs using List.reverseRecOn with
  | nil => exact iff_of_false low (not_since_nil sets clears)
  | append_singleton inputs input ih =>
      rw [clocked_append, clocked_cons, clocked_nil, keeps, since_append, ih]

/-- What holds until something good is observed. -/
theorem observed_until {Event : Type} {step : State → Input → State}
    {observe : State → Input → List Event} {Holds : State → Prop} {Good : Event → Prop}
    (keeps : ∀ state input, Holds state →
      (∃ event ∈ observe state input, Good event) ∨ Holds (step state input))
    {state : State} (holds : Holds state) (inputs : List Input) :
    (∃ event ∈ observed step observe state inputs, Good event) ∨
      Holds (clocked step state inputs) := by
  induction inputs generalizing state with
  | nil => exact .inr holds
  | cons input rest ih =>
      rcases keeps state input holds with ⟨event, now, good⟩ | still
      · exact .inl ⟨event, List.mem_append_left _ now, good⟩
      · rcases ih still with ⟨event, later, good⟩ | last
        · exact .inl ⟨event, List.mem_append_right _ later, good⟩
        · exact .inr last

/-- Up to now there was no such clock, or there is a last one. -/
theorem last_event (event : Input → Bool) (inputs : List Input) :
    (∀ input ∈ inputs, event input = false) ∨
      ∃ before input after, inputs = before ++ input :: after ∧ event input = true ∧
        ∀ later ∈ after, event later = false := by
  induction inputs using List.reverseRecOn with
  | nil => exact .inl (List.forall_mem_nil _)
  | append_singleton inputs input ih =>
      cases now : event input with
      | true => exact .inr ⟨inputs, input, [], rfl, now, List.forall_mem_nil _⟩
      | false =>
          rcases ih with never | ⟨before, first, after, rfl, happened, kept⟩
          · refine .inl fun other member => ?_
            rcases List.mem_append.mp member with early | last
            · exact never other early
            · exact List.mem_singleton.mp last ▸ now
          · refine .inr ⟨before, first, after ++ [input], by simp, happened, fun other member => ?_⟩
            rcases List.mem_append.mp member with early | last
            · exact kept other early
            · exact List.mem_singleton.mp last ▸ now

end ZipVersa.Lib
