import Mathlib.Tactic.Common

/-! Circuits with a reset and a clock enable whose outputs are registers, their
composition in series, and what such a circuit makes of a stream whose first
item is marked. -/

set_option autoImplicit false

namespace ZipVersa.Lib

structure Enabled (State Input Output : Type) where
  step : State → (reset ce : Bool) → Input → State
  out : State → Output

namespace Enabled

variable {State Later Input Middle Output : Type}

/-- Both see the same reset and enables, the second at its input what the
registers of the first show. -/
def series (first : Enabled State Input Middle) (second : Enabled Later Middle Output) :
    Enabled (State × Later) Input Output where
  step state reset ce input :=
    (first.step state.1 reset ce input, second.step state.2 reset ce (first.out state.1))
  out state := second.out state.2

/-- The registers behind a reset, the inputs taken by enables at least `period`
clocks apart, and the clocks since the last of them. -/
inductive Paced (circuit : Enabled State Input Output) (period : Nat) :
    List Input → Nat → State → Prop where
  | reset (state : State) (ce : Bool) (input : Input) :
      Paced circuit period [] period (circuit.step state true ce input)
  | idle {inputs : List Input} {gap : Nat} {state : State} (input : Input) :
      Paced circuit period inputs gap state →
      Paced circuit period inputs (gap + 1) (circuit.step state false false input)
  | ce {inputs : List Input} {gap : Nat} {state : State} (input : Input) :
      Paced circuit period inputs gap state → period ≤ gap →
      Paced circuit period (inputs ++ [input]) 1 (circuit.step state false true input)

variable {circuit : Enabled State Input Output} {period : Nat}

/-- At any pace. -/
theorem Paced.relax {inputs : List Input} {gap : Nat} {state : State}
    (paced : Paced circuit period inputs gap state) :
    ∃ since, Paced circuit 0 inputs since state := by
  induction paced with
  | reset state ce input => exact ⟨0, .reset state ce input⟩
  | idle input _ ih =>
      obtain ⟨since, paced⟩ := ih
      exact ⟨since + 1, .idle input paced⟩
  | ce input _ _ ih =>
      obtain ⟨since, paced⟩ := ih
      exact ⟨1, .ce input paced (Nat.zero_le _)⟩

/-- What the second of two circuits takes is what the first shows at the enables. -/
theorem Paced.series {first : Enabled State Input Middle} {second : Enabled Later Middle Output}
    {inputs : List Input} {gap : Nat} {state : State × Later}
    (paced : Paced (first.series second) period inputs gap state) :
    ∃ between : List Middle, between.length = inputs.length ∧
      Paced first period inputs gap state.1 ∧ Paced second period between gap state.2 ∧
      ∀ index item, between[index]? = some item →
        ∃ since past, Paced first period (inputs.take index) since past ∧ first.out past = item := by
  induction paced with
  | reset state ce input =>
      refine ⟨[], rfl, .reset _ _ _, .reset _ _ _, fun index item found => ?_⟩
      simp at found
  | idle input _ ih =>
      obtain ⟨between, size, front, back, shown⟩ := ih
      exact ⟨between, size, .idle _ front, .idle _ back, shown⟩
  | @ce inputs gap state input _ due ih =>
      obtain ⟨between, size, front, back, shown⟩ := ih
      refine ⟨between ++ [first.out state.1], by simp [size], .ce _ front due, .ce _ back due, ?_⟩
      intro index item found
      rw [List.getElem?_append] at found
      split_ifs at found with earlier
      · rw [List.take_append_of_le_length (by omega)]
        exact shown index item found
      · obtain ⟨inside, rfl⟩ := List.getElem?_eq_some_iff.mp found
        have last : index = inputs.length := by
          simp only [List.length_singleton] at inside
          omega
        subst last
        rw [List.take_left]
        exact ⟨gap, state.1, front, by simp⟩

end Enabled

/-- The item taken `ago` enables before the last. -/
def back {Input : Type} (inputs : List Input) (ago : Nat) : Option Input := inputs.reverse[ago]?

section Back

variable {Input : Type} (inputs : List Input) (input : Input)

@[simp] theorem back_nil (ago : Nat) : back ([] : List Input) ago = none := rfl

@[simp] theorem back_zero : back (inputs ++ [input]) 0 = some input := by
  simp [back]

@[simp] theorem back_succ (ago : Nat) : back (inputs ++ [input]) (ago + 1) = back inputs ago := by
  simp [back]

variable {inputs}

theorem back_eq {index ago : Nat} (place : inputs.length = index + ago + 1) :
    back inputs ago = inputs[index]? := by
  rw [back, List.getElem?_reverse (by omega)]
  congr 1
  omega

end Back

/-! ### Marked streams -/

/-- An item of a stream, `sync` at the first one. -/
structure Marked (Item : Type) where
  sync : Bool
  data : Item
  deriving DecidableEq, Inhabited, Repr

variable {Item Image : Type}

/-- No mark before place `start`. -/
def Quiet (start : Nat) (items : List (Marked Item)) : Prop :=
  ∀ index < start, ∀ item, items[index]? = some item → item.sync = false

/-- From place `start` on the items are those of `stream`, whose first is marked;
no mark comes before. -/
structure Starts (start : Nat) (stream : Nat → Marked Item) (items : List (Marked Item)) :
    Prop where
  quiet : Quiet start items
  carries : ∀ index item, items[start + index]? = some item → item = stream index
  first : (stream 0).sync = true

section Starts

variable {start : Nat} {stream : Nat → Marked Item} {items : List (Marked Item)}

theorem Quiet.take (quiet : Quiet start items) (count : Nat) : Quiet start (items.take count) := by
  intro index below item found
  rw [List.getElem?_take] at found
  split_ifs at found
  exact quiet index below item found

theorem Quiet.init {item : Marked Item} (quiet : Quiet start (items ++ [item])) :
    Quiet start items := by
  have same : (items ++ [item]).take items.length = items := List.take_left
  rw [← same]
  exact quiet.take _

theorem Quiet.last {item : Marked Item} (quiet : Quiet start (items ++ [item]))
    (early : items.length < start) : item.sync = false :=
  quiet items.length early item (by simp)

namespace Starts

theorem take (starts : Starts start stream items) (count : Nat) :
    Starts start stream (items.take count) where
  quiet := starts.quiet.take count
  carries index item found := by
    rw [List.getElem?_take] at found
    split_ifs at found
    exact starts.carries index item found
  first := starts.first

theorem init {item : Marked Item} (starts : Starts start stream (items ++ [item])) :
    Starts start stream items := by
  have same : (items ++ [item]).take items.length = items := List.take_left
  rw [← same]
  exact starts.take _

theorem last {item : Marked Item} (starts : Starts start stream (items ++ [item]))
    {index : Nat} (place : items.length = start + index) : item = stream index :=
  starts.carries index item (by simp [← place])

end Starts

theorem Starts.back_eq (starts : Starts start stream items) {index ago : Nat}
    (place : items.length = start + index + ago + 1) : back items ago = some (stream index) := by
  have inside : start + index < items.length := by omega
  rw [Lib.back_eq (show items.length = start + index + ago + 1 by omega), List.getElem?_eq_getElem inside,
    starts.carries index _ (List.getElem?_eq_getElem inside)]

/-- The mark that came in `ago` enables before the last. -/
def mark (items : List (Marked Item)) (ago : Nat) : Bool := (back items ago).elim false Marked.sync

@[simp] theorem mark_nil (ago : Nat) : mark ([] : List (Marked Item)) ago = false := rfl

@[simp] theorem mark_zero (items : List (Marked Item)) (item : Marked Item) :
    mark (items ++ [item]) 0 = item.sync := by
  simp [mark]

@[simp] theorem mark_succ (items : List (Marked Item)) (item : Marked Item) (ago : Nat) :
    mark (items ++ [item]) (ago + 1) = mark items ago := by
  simp [mark]

theorem Starts.mark_eq (starts : Starts start stream items) {index ago : Nat}
    (place : items.length = start + index + ago + 1) : mark items ago = (stream index).sync := by
  rw [mark, starts.back_eq place]
  rfl

theorem Quiet.mark_eq (quiet : Quiet start items) {ago : Nat}
    (early : items.length < start + (ago + 1)) : mark items ago = false := by
  rcases Nat.lt_or_ge ago items.length with enough | few
  · obtain ⟨index, place⟩ : ∃ index, items.length = index + ago + 1 :=
      ⟨items.length - ago - 1, by omega⟩
    have inside : index < items.length := by omega
    rw [mark, back_eq place, List.getElem?_eq_getElem inside]
    exact quiet index (by omega) _ (List.getElem?_eq_getElem inside)
  · rw [mark, back, List.getElem?_eq_none (by rwa [List.length_reverse])]
    rfl

/-- Either no mark has come, or the stream of the first one has started. -/
theorem Quiet.starts (quiet : Quiet start items) :
    Quiet items.length items ∨ ∃ first stream, start ≤ first ∧ Starts first stream items := by
  have before : Quiet (items.findIdx Marked.sync) items := by
    intro index below item found
    obtain ⟨inside, rfl⟩ := List.getElem?_eq_some_iff.mp found
    exact List.not_of_lt_findIdx below
  rcases Nat.lt_or_ge (items.findIdx Marked.sync) items.length with inside | none
  · have marked : (items[items.findIdx Marked.sync]).sync = true := List.findIdx_getElem
    refine .inr ⟨items.findIdx Marked.sync,
      fun index => items[items.findIdx Marked.sync + index]?.getD items[items.findIdx Marked.sync],
      ?_, before, ?_, ?_⟩
    · by_contra early
      have unmarked := quiet _ (Nat.lt_of_not_le early) _ (List.getElem?_eq_getElem inside)
      exact absurd (unmarked.symm.trans marked) Bool.false_ne_true
    · intro index item found
      rw [found, Option.getD_some]
    · rw [Nat.add_zero, List.getElem?_eq_getElem inside, Option.getD_some, marked]
  · exact .inl fun index below => before index (Nat.lt_of_lt_of_le below none)

end Starts

/-- The stream the circuit shows: no mark before the first one and `delay`
enables, at whatever pace, then what `image` makes of the stream it is given. -/
structure Relays {State : Type} (circuit : Enabled State (Marked Item) (Marked Image))
    (period delay : Nat) (image : (Nat → Marked Item) → Nat → Marked Image) : Prop where
  leads : ∀ stream, (stream 0).sync = true → (image stream 0).sync = true
  quiet : ∀ items gap state start, circuit.Paced 0 items gap state → Quiet start items →
    items.length < start + delay → (circuit.out state).sync = false
  shows : ∀ items gap state start stream index, circuit.Paced period items gap state →
    Starts start stream items → items.length = start + delay + index →
    circuit.out state = image stream index

namespace Relays

variable {State Later Final : Type}
variable {front : Enabled State (Marked Item) (Marked Image)}
variable {back : Enabled Later (Marked Image) (Marked Final)} {period delay more : Nat}
variable {image : (Nat → Marked Item) → Nat → Marked Image}
variable {final : (Nat → Marked Image) → Nat → Marked Final}

theorem congr {total : Nat} {other : (Nat → Marked Item) → Nat → Marked Image}
    (relays : Relays front period delay image) (time : delay = total)
    (same : ∀ stream index, image stream index = other stream index) :
    Relays front period total other := by
  have equal : image = other := funext fun stream => funext fun index => same stream index
  rwa [equal, time] at relays

/-- What lies between two circuits in series. -/
theorem between_quiet (first : Relays front period delay image) {items : List (Marked Item)}
    {gap start : Nat} {state : State × Later}
    (paced : (front.series back).Paced 0 items gap state) (quiet : Quiet start items) :
    ∃ middle, middle.length = items.length ∧ back.Paced 0 middle gap state.2 ∧
      Quiet (start + delay) middle := by
  obtain ⟨middle, size, _, later, shown⟩ := paced.series
  refine ⟨middle, size, later, fun index below item found => ?_⟩
  have inside : index < middle.length := (List.getElem?_eq_some_iff.mp found).1
  obtain ⟨since, past, earlier, rfl⟩ := shown index item found
  refine first.quiet _ _ _ _ earlier (quiet.take index) ?_
  rw [List.length_take]
  omega

theorem between (first : Relays front period delay image) {items : List (Marked Item)}
    {gap start : Nat} {state : State × Later} {stream : Nat → Marked Item}
    (paced : (front.series back).Paced period items gap state)
    (starts : Starts start stream items) :
    ∃ middle, middle.length = items.length ∧ back.Paced period middle gap state.2 ∧
      Starts (start + delay) (image stream) middle := by
  obtain ⟨middle, size, _, later, shown⟩ := paced.series
  refine ⟨middle, size, later, ?_, ?_, first.leads stream starts.first⟩
  · intro index below item found
    obtain ⟨since, past, earlier, rfl⟩ := shown index item found
    obtain ⟨_, any⟩ := earlier.relax
    refine first.quiet _ _ _ _ any (starts.quiet.take index) ?_
    rw [List.length_take]
    omega
  · intro index item found
    have inside : start + delay + index < middle.length :=
      (List.getElem?_eq_some_iff.mp found).1
    obtain ⟨since, past, earlier, rfl⟩ := shown _ item found
    refine first.shows _ _ _ _ _ _ earlier (starts.take _) ?_
    rw [List.length_take]
    omega

/-- Circuits in series relay one after the other. -/
theorem series (first : Relays front period delay image)
    (second : Relays back period more final) :
    Relays (front.series back) period (delay + more) (fun stream => final (image stream)) where
  leads stream marked := second.leads _ (first.leads stream marked)
  quiet := by
    intro items gap state start paced quiet short
    obtain ⟨middle, size, later, still⟩ := first.between_quiet paced quiet
    exact second.quiet _ _ _ _ later still (by omega)
  shows := by
    intro items gap state start stream index paced starts enough
    obtain ⟨middle, size, later, starts'⟩ := first.between paced starts
    exact second.shows _ _ _ _ _ _ later starts' (by omega)

end Relays

/-! ### Circuits that keep count -/

/-- What the registers hold after a number of items of a stream: they wait for
the first mark, and hold still between the enables. -/
structure Tracks {State Output : Type} (circuit : Enabled State (Marked Item) Output)
    (stream : Nat → Marked Item) (follows : Nat → State → Prop) : Prop where
  reset : ∀ state ce input, follows 0 (circuit.step state true ce input)
  idle : ∀ count state input, follows count state →
    follows count (circuit.step state false false input)
  waits : ∀ state input, input.sync = false → follows 0 state →
    follows 0 (circuit.step state false true input)
  takes : ∀ count state, follows count state →
    follows (count + 1) (circuit.step state false true (stream count))

namespace Tracks

variable {State : Type} {circuit : Enabled State (Marked Item) (Marked Image)}
variable {stream : Nat → Marked Item} {follows : Nat → State → Prop}
variable {period gap start count : Nat} {items : List (Marked Item)} {state : State}

theorem before (tracks : Tracks circuit stream follows)
    (paced : circuit.Paced period items gap state) (quiet : Quiet start items)
    (short : items.length ≤ start) : follows 0 state := by
  induction paced with
  | reset state ce input => exact tracks.reset state ce input
  | idle input _ ih => exact tracks.idle _ _ _ (ih quiet short)
  | ce input _ _ ih =>
      rw [List.length_append, List.length_singleton] at short
      exact tracks.waits _ _ (quiet.last (by omega)) (ih quiet.init (by omega))

theorem after (tracks : Tracks circuit stream follows)
    (paced : circuit.Paced period items gap state) (starts : Starts start stream items)
    (place : items.length = start + count) : follows count state := by
  induction paced generalizing count with
  | reset state ce input =>
      obtain rfl : count = 0 := by
        rw [List.length_nil] at place
        omega
      exact tracks.reset state ce input
  | idle input _ ih => exact tracks.idle _ _ _ (ih starts place)
  | @ce items gap state input paced due ih =>
      cases count with
      | zero => exact tracks.before (.ce input paced due) starts.quiet (Nat.le_of_eq place)
      | succ count =>
          rw [List.length_append, List.length_singleton] at place
          rw [starts.last (show items.length = start + count by omega)]
          exact tracks.takes _ _ (ih starts.init (by omega))

/-- A circuit that keeps count relays. -/
theorem relays [Inhabited Item] {delay : Nat} (positive : 0 < delay)
    {image : (Nat → Marked Item) → Nat → Marked Image}
    {follows : (Nat → Marked Item) → Nat → State → Prop}
    (tracks : ∀ stream, (stream 0).sync = true → Tracks circuit stream (follows stream))
    (leads : ∀ stream, (stream 0).sync = true → (image stream 0).sync = true)
    (silent : ∀ stream count state, follows stream count state → count < delay →
      (circuit.out state).sync = false)
    (shows : ∀ stream index state, follows stream (delay + index) state →
      circuit.out state = image stream index) (period : Nat) :
    Relays circuit period delay image where
  leads := leads
  quiet := by
    intro items gap state start paced quiet short
    rcases quiet.starts with none | ⟨first, stream, later, starts⟩
    · exact silent (fun _ => ⟨true, default⟩) 0 _
        ((tracks _ rfl).before paced none (Nat.le_refl _)) positive
    · rcases Nat.lt_or_ge items.length first with waiting | started
      · exact silent stream 0 _
          ((tracks _ starts.first).before paced starts.quiet (Nat.le_of_lt waiting)) positive
      · obtain ⟨count, place⟩ := Nat.exists_eq_add_of_le started
        exact silent stream count _ ((tracks _ starts.first).after paced starts place) (by omega)
  shows := by
    intro items gap state start stream index paced starts place
    exact shows stream index state
      ((tracks stream starts.first).after paced starts (by omega))

end Tracks

end ZipVersa.Lib
