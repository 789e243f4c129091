import ZipVersa.Board.Arbiter

/-! One bus cycle at a time. Between cycles the registers of `busdelay` are
clear, so a cycle is accounted for by itself: what its master had accepted is
what the slaves have accepted and the two requests on the way. -/

set_option autoImplicit false

namespace ZipVersa.Board

open Lib

variable {aw dw : Nat}

namespace SharedBus

variable {bus : SharedBus aw dw} {clock : BusClock aw dw} {clocks : List (BusClock aw dw)}

/-- The requests between a master and the slaves. -/
def inFlight (bus : SharedBus aw dw) : List (WbRequest aw dw) :=
  (if bus.delay.oDlyStb then [bus.delay.oDly] else []) ++
    if bus.delay.rStb then [bus.delay.r] else []

/-- A bus cycle under way: what its master had accepted, what reached the
slaves, their answers and those returned. -/
inductive Cycle (taken reached : List (WbRequest aw dw)) (answered back : List (Answer dw)) :
    SharedBus aw dw → Prop where
  | running {bus : SharedBus aw dw} : bus.delay.oWbErr = false →
      (bus.delay.rStb = true → bus.delay.oDlyStb = true) →
      (bus.delay.oDlyCyc = false → bus.Quiet) → taken = reached ++ bus.inFlight →
      answered = back ++ (if bus.delay.oWbAck then [.ack bus.delay.oWbData] else []) →
      Answer.err ∉ answered → Cycle taken reached answered back bus
  | failed {bus : SharedBus aw dw} : bus.delay.oWbErr = true → bus.delay.oDlyCyc = false →
      reached <+: taken → answered = back ++ [.err] → Cycle taken reached answered back bus

/-- The clocks of a bus cycle, out of reset. -/
def Held : SharedBus aw dw → List (BusClock aw dw) → Prop
  | _, [] => True
  | bus, clock :: rest =>
      (bus.driven clock).cyc = true ∧ clock.iReset = false ∧ Held (bus.step clock) rest

/-- An error returned to a master is the end of its cycle. -/
def Proper : SharedBus aw dw → List (BusClock aw dw) → Prop
  | _, [] => True
  | bus, clock :: rest =>
      (.err ∈ returned bus.arbiter.owner bus clock → ∀ next ∈ rest.head?,
        (next.master bus.arbiter.owner).cyc = false) ∧
      Proper (bus.step clock) rest

/-- What comes in goes out, in order, two later. -/
theorem flow (error : bus.delay.oWbErr = false)
    (order : bus.delay.rStb = true → bus.delay.oDlyStb = true)
    (closed : bus.delay.oDlyCyc = false → bus.delay.oDlyStb = false)
    (reset : clock.iReset = false) (held : (bus.driven clock).cyc = true)
    (fine : (clock.slaves.err && bus.delay.oDlyCyc) = false) :
    bus.reaches clock ++ (bus.step clock).inFlight =
        bus.inFlight ++ taken bus.arbiter.owner bus clock ∧
      ((bus.step clock).delay.rStb = true → (bus.step clock).delay.oDlyStb = true) := by
  rw [taken_owner]
  unfold reaches inFlight step
  cases strobe : bus.delay.oDlyStb with
  | false =>
      have empty : bus.delay.rStb = false := by
        by_contra full
        rw [Bool.not_eq_false] at full
        rw [order full] at strobe
        cases strobe
      cases incoming : (bus.driven clock).stb <;>
        simp [BusDelay.step, error, reset, held, fine, strobe, empty, incoming]
  | true =>
      have cycle : bus.delay.oDlyCyc = true := by
        by_contra low
        rw [Bool.not_eq_true] at low
        rw [closed low] at strobe
        cases strobe
      have noErr : clock.slaves.err = false := by simpa [cycle] using fine
      cases stall : clock.slaves.stall <;> cases full : bus.delay.rStb <;>
        cases incoming : (bus.driven clock).stb <;>
        simp [BusDelay.step, BusDelay.oWbStall, error, reset, held, noErr, strobe, cycle, full,
          stall, incoming]

theorem reaches_grows (bus : SharedBus aw dw) (clock : BusClock aw dw) :
    bus.reaches clock <+: bus.inFlight := by
  unfold reaches inFlight
  cases bus.delay.oDlyStb with
  | false => simp
  | true => cases bus.delay.oDlyCyc <;> cases clock.slaves.stall <;> simp

theorem cycle_step {taken reached : List (WbRequest aw dw)} {answered back : List (Answer dw)}
    (cycle : Cycle taken reached answered back bus) (error : bus.delay.oWbErr = false)
    (reset : clock.iReset = false) (held : (bus.driven clock).cyc = true) :
    Cycle (taken ++ SharedBus.taken bus.arbiter.owner bus clock) (reached ++ bus.reaches clock)
      (answered ++ bus.answers clock) (back ++ returned bus.arbiter.owner bus clock)
      (bus.step clock) := by
  cases cycle with
  | failed other => rw [error] at other; cases other
  | running _ order closed balance answer none =>
      have passed : returned bus.arbiter.owner bus clock =
          if bus.delay.oWbAck then [.ack bus.delay.oWbData] else [] := by
        rw [returned_owner, error]
        rfl
      cases fine : clock.slaves.err && bus.delay.oDlyCyc with
      | true =>
          obtain ⟨err, open'⟩ := Bool.and_eq_true_iff.mp fine
          have answers' : bus.answers clock = [.err] := by simp [answers, err, open']
          refine .failed ?_ ?_ ?_ ?_
          · simp [step, BusDelay.step, reset, held, err, open']
          · simp [step, BusDelay.step, err, open']
          · rw [balance, List.append_assoc]
            exact (List.prefix_append_right_inj reached).mpr
              ((reaches_grows bus clock).trans (List.prefix_append _ _))
          · rw [answers', passed, ← answer]
      | false =>
          obtain ⟨moves, kept⟩ := flow error order (fun low => (closed low).stb) reset held fine
          have opens : (bus.step clock).delay.oDlyCyc = true := by
            have going : (!clock.slaves.err || !bus.delay.oDlyCyc) = true := by
              rw [← Bool.not_and, fine]
              rfl
            simp [step, BusDelay.step, reset, held, error, going]
          have answers' : bus.answers clock =
              if (bus.step clock).delay.oWbAck then [.ack (bus.step clock).delay.oWbData] else [] := by
            unfold answers
            cases cycle : bus.delay.oDlyCyc with
            | false => simp [step, BusDelay.step, cycle]
            | true =>
                have noErr : clock.slaves.err = false := by simpa [cycle] using fine
                simp [step, BusDelay.step, reset, held, error, cycle, noErr]
          refine .running ?_ kept (fun low => ?_) ?_ ?_ ?_
          · simp [step, BusDelay.step, reset, held, fine]
          · rw [opens] at low
            cases low
          · rw [balance, List.append_assoc, List.append_assoc, moves]
          · rw [passed, ← answer, answers']
          · rw [answers', List.mem_append, not_or]
            refine ⟨none, ?_⟩
            split_ifs <;> simp

/-- The clock on which a master is told of an error. -/
theorem error_step (error : bus.delay.oWbErr = true) (closed : bus.delay.oDlyCyc = false)
    (clock : BusClock aw dw) :
    (bus.step clock).Quiet ∧ bus.reaches clock = [] ∧ bus.answers clock = [] ∧
      returned bus.arbiter.owner bus clock = [.err] := by
  refine ⟨?_, by simp [reaches, closed], by simp [answers, closed], ?_⟩
  · constructor <;> simp [step, BusDelay.step, error, closed]
  · rw [returned_owner, error]
    rfl

theorem owner_run (held : Held bus clocks) :
    (clocked step bus clocks).arbiter.owner = bus.arbiter.owner := by
  induction clocks generalizing bus with
  | nil => rfl
  | cons clock rest ih =>
      obtain ⟨now, -, later⟩ := held
      rw [clocked_cons, ih later, owner_step now]

/-- After the error: nothing more reaches the slaves in this cycle. -/
structure Over (taken reached : List (WbRequest aw dw)) (answered back : List (Answer dw))
    (bus : SharedBus aw dw) : Prop where
  quiet : bus.Quiet
  arrival : reached <+: taken
  hearing : answered = back
  error : Answer.err ∈ answered

theorem cycle_run {taken reached : List (WbRequest aw dw)} {answered back : List (Answer dw)}
    (cycle : Cycle taken reached answered back bus) (held : Held bus clocks)
    (proper : Proper bus clocks) :
    Cycle (taken ++ observed step (SharedBus.taken bus.arbiter.owner) bus clocks)
        (reached ++ observed step reaches bus clocks)
        (answered ++ observed step answers bus clocks)
        (back ++ observed step (returned bus.arbiter.owner) bus clocks)
        (clocked step bus clocks) ∨
      Over (taken ++ observed step (SharedBus.taken bus.arbiter.owner) bus clocks)
        (reached ++ observed step reaches bus clocks)
        (answered ++ observed step answers bus clocks)
        (back ++ observed step (returned bus.arbiter.owner) bus clocks)
        (clocked step bus clocks) := by
  induction clocks generalizing bus taken reached answered back with
  | nil => exact .inl (by simpa [observed] using cycle)
  | cons clock rest ih =>
      obtain ⟨now, reset, later⟩ := held
      obtain ⟨drops, others⟩ := proper
      cases error : bus.delay.oWbErr with
      | false =>
          have next := ih (cycle_step cycle error reset now) later others
          rw [owner_step now] at next
          simpa only [observed, List.append_assoc, clocked_cons] using next
      | true =>
          cases cycle with
          | running none => rw [error] at none; cases none
          | failed _ closed before answer =>
              obtain ⟨quiet, stopped, hushed, told⟩ := error_step error closed clock
              cases rest with
              | cons next rest =>
                  -- the master has left the bus
                  have low := drops (by rw [told]; simp) next rfl
                  have high := later.1
                  rw [driven_of_owner, owner_step now, low] at high
                  cases high
              | nil =>
                  right
                  simp only [observed, List.append_nil, stopped, hushed, told, clocked_cons,
                    clocked_nil]
                  exact ⟨quiet, before.trans (List.prefix_append _ _), answer, by rw [answer]; simp⟩

/-! ### What is known of a cycle at any point -/

/-- The books of a master with the bus. If the slaves answer requests they have
accepted, it hears the answers to its own. -/
structure Isolated (owner : Side) (bus : SharedBus aw dw) (clocks : List (BusClock aw dw)) :
    Prop where
  arrival : observed step reaches bus clocks <+: observed step (taken owner) bus clocks
  hearing : observed step (returned owner) bus clocks <+: observed step answers bus clocks
  prompt : (observed step answers bus clocks).length ≤
    (observed step (returned owner) bus clocks).length + 1
  others : ∀ side, side ≠ owner →
    observed step (taken side) bus clocks = [] ∧ observed step (returned side) bus clocks = []
  matched :
    (observed step answers bus clocks).length ≤ (observed step reaches bus clocks).length →
      (observed step (taken owner) bus clocks).zip (observed step (returned owner) bus clocks) <+:
        (observed step reaches bus clocks).zip (observed step answers bus clocks)

private theorem zip_grows {First Second : Type} {long short : List First}
    {back all : List Second} (front : short <+: long) (some : back <+: all)
    (enough : all.length ≤ short.length) : long.zip back <+: short.zip all := by
  obtain ⟨later, rfl⟩ := front
  obtain ⟨last, rfl⟩ := some
  rw [List.length_append] at enough
  have size : (short.take back.length).length = back.length := by
    rw [List.length_take]
    omega
  have whole := List.take_append_drop back.length short
  have outer : (short ++ later).zip back = (short.take back.length).zip back := by
    have split := @List.zip_append _ _ (short.take back.length)
      (short.drop back.length ++ later) back [] size
    rw [← List.append_assoc, whole, List.append_nil] at split
    rw [split, List.zip_nil_right, List.append_nil]
  have inner : short.zip (back ++ last) =
      (short.take back.length).zip back ++ (short.drop back.length).zip last := by
    rw [← List.zip_append size, whole]
  rw [outer, inner]
  exact List.prefix_append _ _

theorem others_run (held : Held bus clocks) {side : Side} (other : side ≠ bus.arbiter.owner) :
    observed step (taken side) bus clocks = [] ∧
      observed step (returned side) bus clocks = [] := by
  induction clocks generalizing bus with
  | nil => exact ⟨rfl, rfl⟩
  | cons clock rest ih =>
      obtain ⟨now, -, later⟩ := held
      obtain ⟨none, silent⟩ := @other_silent _ _ bus clock side other
      obtain ⟨nothing, hushed⟩ := ih later (by rw [owner_step now]; exact other)
      rw [observed, observed, none, silent, nothing, hushed]
      exact ⟨rfl, rfl⟩

theorem Quiet.fresh (quiet : bus.Quiet) : Cycle [] [] [] [] bus := by
  refine .running quiet.err (fun full => ?_) (fun _ => quiet) ?_ ?_ (List.not_mem_nil)
  · rw [quiet.held] at full
    cases full
  · simp [inFlight, quiet.stb, quiet.held]
  · simp [quiet.ack]

/-- While it lasts. -/
theorem isolated_body (quiet : bus.Quiet) (held : Held bus clocks) (proper : Proper bus clocks) :
    Isolated bus.arbiter.owner bus clocks ∧
      (.err ∉ observed step answers bus clocks →
        observed step (taken bus.arbiter.owner) bus clocks =
          observed step reaches bus clocks ++ (clocked step bus clocks).inFlight) := by
  have others := fun side other => @others_run _ _ bus clocks held side other
  have books := cycle_run quiet.fresh held proper
  simp only [List.nil_append] at books
  rcases books with cycle | ended
  · cases cycle with
    | running _ _ _ balance answer =>
        refine ⟨⟨⟨_, balance.symm⟩, ⟨_, answer.symm⟩, ?_, others,
          zip_grows ⟨_, balance.symm⟩ ⟨_, answer.symm⟩⟩, fun _ => balance⟩
        rw [answer, List.length_append]
        split_ifs <;> simp
    | failed _ _ before answer =>
        refine ⟨⟨before, ⟨_, answer.symm⟩, by rw [answer, List.length_append]; simp, others,
          zip_grows before ⟨_, answer.symm⟩⟩, fun none => ?_⟩
        exact absurd (by rw [answer]; simp) none
  · have same := ended.hearing
    refine ⟨⟨ended.arrival, same ▸ List.prefix_rfl, by rw [same]; simp, others,
      zip_grows ended.arrival (same ▸ List.prefix_rfl)⟩, fun none => ?_⟩
    exact absurd ended.error none

theorem length_answers (bus : SharedBus aw dw) (clock : BusClock aw dw) :
    (bus.answers clock).length ≤ 1 := by
  unfold answers
  split_ifs <;> simp

/-- With the clock on which the master has left. -/
theorem isolated_end (quiet : bus.Quiet) (held : Held bus clocks) (proper : Proper bus clocks)
    {last : BusClock aw dw} (low : ((clocked step bus clocks).driven last).cyc = false) :
    Isolated bus.arbiter.owner bus (clocks ++ [last]) := by
  have owner := owner_run held
  have nothing : taken bus.arbiter.owner (clocked step bus clocks) last = [] := by
    rw [← owner, taken_owner, low]
    rfl
  have told := returned_owner (clocked step bus clocks) last
  rw [owner] at told
  have books := cycle_run quiet.fresh held proper
  simp only [List.nil_append] at books
  have single := length_answers (clocked step bus clocks) last
  have others : ∀ side, side ≠ bus.arbiter.owner →
      observed step (taken side) bus (clocks ++ [last]) = [] ∧
        observed step (returned side) bus (clocks ++ [last]) = [] := by
    intro side other
    obtain ⟨none, silent⟩ := @others_run _ _ bus clocks held side other
    obtain ⟨still, hushed⟩ := @other_silent _ _ (clocked step bus clocks) last side
      (by rw [owner]; exact other)
    simp [observed_append, observed, none, silent, still, hushed]
  have settled : observed step (returned bus.arbiter.owner) bus clocks ++
      returned bus.arbiter.owner (clocked step bus clocks) last =
        observed step answers bus clocks := by
    rw [told]
    rcases books with cycle | ended
    · cases cycle with
      | running none _ _ _ answer =>
          rw [none, answer]
          rfl
      | failed error _ _ answer =>
          rw [error, answer]
          rfl
    · rw [ended.quiet.err, ended.quiet.ack, ended.hearing]
      exact List.append_nil _
  have arrival : observed step reaches bus (clocks ++ [last]) <+:
      observed step (taken bus.arbiter.owner) bus (clocks ++ [last]) := by
    simp only [observed_append, observed, nothing, List.append_nil]
    rcases books with cycle | ended
    · cases cycle with
      | running _ _ _ balance =>
          rw [balance]
          exact (List.prefix_append_right_inj _).mpr (reaches_grows _ last)
      | failed error closed before =>
          rw [(error_step error closed last).2.1, List.append_nil]
          exact before
    · have stopped : (clocked step bus clocks).reaches last = [] := by
        simp [reaches, ended.quiet.cyc]
      rw [stopped, List.append_nil]
      exact ended.arrival
  have hearing : observed step (returned bus.arbiter.owner) bus (clocks ++ [last]) <+:
      observed step answers bus (clocks ++ [last]) := by
    simp only [observed_append, observed, List.append_nil, settled]
    exact List.prefix_append _ _
  refine ⟨arrival, hearing, ?_, others, zip_grows arrival hearing⟩
  simp only [observed_append, observed, List.append_nil, settled, List.length_append]
  exact Nat.add_le_add_left single _

/-! ### Nothing is held back -/

theorem Held.append {first second : List (BusClock aw dw)} (held : Held bus (first ++ second)) :
    Held bus first ∧ Held (clocked step bus first) second := by
  induction first generalizing bus with
  | nil => exact ⟨trivial, held⟩
  | cons clock rest ih =>
      obtain ⟨now, reset, later⟩ := held
      obtain ⟨before, after⟩ := ih later
      exact ⟨⟨now, reset, before⟩, after⟩

theorem Proper.append {first second : List (BusClock aw dw)}
    (proper : Proper bus (first ++ second)) : Proper bus first := by
  induction first generalizing bus with
  | nil => trivial
  | cons clock rest ih =>
      obtain ⟨drops, later⟩ := proper
      refine ⟨fun told next first => drops told next ?_, ih later⟩
      cases rest with
      | nil => cases first
      | cons other rest => exact first

theorem Cycle.noError {taken reached : List (WbRequest aw dw)} {answered back : List (Answer dw)}
    (cycle : Cycle taken reached answered back bus) (none : .err ∉ answered) :
    bus.delay.oWbErr = false ∧ taken = reached ++ bus.inFlight ∧
      (bus.inFlight ≠ [] → bus.delay.oDlyCyc = true ∧ bus.delay.oDlyStb = true) := by
  cases cycle with
  | failed _ _ _ answer => exact absurd (by rw [answer]; simp) none
  | running error order closed balance =>
      refine ⟨error, balance, fun some => ?_⟩
      have strobe : bus.delay.oDlyStb = true := by
        by_contra low
        rw [Bool.not_eq_true] at low
        have empty : bus.delay.rStb = false := by
          by_contra full
          rw [order (Bool.not_eq_false _ |>.mp full)] at low
          cases low
        exact some (by simp [inFlight, low, empty])
      refine ⟨?_, strobe⟩
      by_contra low
      rw [Bool.not_eq_true] at low
      rw [(closed low).stb] at strobe
      cases strobe

/-- Each clock without a stall takes one request off the way. -/
theorem inFlight_drains {taken reached : List (WbRequest aw dw)}
    {answered back : List (Answer dw)} (cycle : Cycle taken reached answered back bus)
    (held : Held bus clocks) (none : .err ∉ answered ++ observed step answers bus clocks) :
    min (clocks.countP fun clock => !clock.slaves.stall) bus.inFlight.length ≤
        (observed step reaches bus clocks).length ∧
      bus.inFlight ++ observed step (SharedBus.taken bus.arbiter.owner) bus clocks =
        observed step reaches bus clocks ++ (clocked step bus clocks).inFlight := by
  induction clocks generalizing bus taken reached answered back with
  | nil => simp [observed]
  | cons clock rest ih =>
      obtain ⟨now, reset, later⟩ := held
      rw [observed, ← List.append_assoc] at none
      have before : .err ∉ answered := fun member => none (by simp [member])
      obtain ⟨error, balance, moving⟩ := cycle.noError before
      have next := cycle_step cycle error reset now
      obtain ⟨drained, kept⟩ := ih next later none
      rw [owner_step now] at kept
      have after : .err ∉ answered ++ bus.answers clock := fun member =>
        none (List.mem_append_left _ member)
      have now' : bus.inFlight ++ SharedBus.taken bus.arbiter.owner bus clock =
          bus.reaches clock ++ (bus.step clock).inFlight := by
        have both := (next.noError after).2.1
        rw [balance, List.append_assoc, List.append_assoc] at both
        exact List.append_cancel_left both
      refine ⟨?_, ?_⟩
      · have sizes := congrArg List.length now'
        rw [List.length_append, List.length_append] at sizes
        rw [observed, List.length_append, List.countP_cons]
        cases empty : bus.inFlight with
        | nil => simp
        | cons request others =>
            obtain ⟨cycle, strobe⟩ := moving (by rw [empty]; exact List.cons_ne_nil _ _)
            rw [empty, List.length_cons] at sizes
            have single : (bus.reaches clock).length = if !clock.slaves.stall then 1 else 0 := by
              unfold reaches
              rw [cycle, strobe]
              cases clock.slaves.stall <;> rfl
            rw [List.length_cons, single]
            rw [single] at sizes
            omega
      · rw [observed, observed, ← List.append_assoc, now', List.append_assoc, kept, List.append_assoc]
        rfl

theorem delivers {first second : List (BusClock aw dw)} (quiet : bus.Quiet)
    (held : Held bus (first ++ second)) (proper : Proper bus (first ++ second))
    (noErr : .err ∉ observed step answers bus (first ++ second))
    (free : 2 ≤ second.countP fun clock => !clock.slaves.stall) :
    observed step (taken bus.arbiter.owner) bus first <+:
      observed step reaches bus (first ++ second) := by
  obtain ⟨before, after⟩ := held.append
  have start := cycle_run quiet.fresh before proper.append
  rw [observed_append] at noErr
  have early : .err ∉ observed step answers bus first := fun member =>
    noErr (List.mem_append_left _ member)
  simp only [List.nil_append] at start
  rcases start with cycle | ended
  · obtain ⟨-, balance, -⟩ := cycle.noError early
    obtain ⟨drained, kept⟩ := inFlight_drains cycle after noErr
    have few : (clocked step bus first).inFlight.length ≤ 2 := by
      unfold inFlight
      split_ifs <;> simp
    rw [observed_append, balance]
    refine (List.prefix_append_right_inj _).mpr ?_
    exact List.prefix_of_prefix_length_le (List.prefix_append _ _) ⟨_, kept.symm⟩ (by omega)
  · exact absurd ended.error early

/-! ### From power-up on -/

/-- Some clocks from power-up, the last of them outside any bus cycle. -/
inductive Apart : List (BusClock aw dw) → Prop where
  | nil : Apart []
  | idle {before : List (BusClock aw dw)} {last : BusClock aw dw} :
      ((clocked step initial before).driven last).cyc = false → Apart (before ++ [last])
  | reset {before : List (BusClock aw dw)} {last : BusClock aw dw} :
      last.iReset = true → Apart (before ++ [last])

theorem Apart.quiet {before : List (BusClock aw dw)} (apart : Apart before) :
    (clocked step initial before).Quiet := by
  cases apart with
  | nil => exact initial_quiet
  | idle low =>
      rw [clocked_append]
      exact quiet_after (.inl low)
  | reset reset =>
      rw [clocked_append]
      exact quiet_after (.inr reset)

/-- Every bus cycle, whatever came before it: at any point of it, with the clock
after it, and with what came before it gone. -/
theorem bus_cycle_isolated {before body : List (BusClock aw dw)} (apart : Apart before)
    (held : Held (clocked step initial before) body)
    (proper : Proper (clocked step initial before) body) :
    let bus := clocked step initial before
    let owner := bus.arbiter.owner
    (∀ clock side, bus.reaches clock = [] ∧ returned side bus clock = []) ∧
    (∀ first second, body = first ++ second →
      (clocked step bus first).arbiter.owner = owner) ∧
    Isolated owner bus body ∧
    (∀ last, ((clocked step bus body).driven last).cyc = false →
      Isolated owner bus (body ++ [last])) ∧
    (.err ∉ observed step answers bus body →
      observed step (taken owner) bus body =
        observed step reaches bus body ++ (clocked step bus body).inFlight ∧
      ∀ first second, body = first ++ second →
        (2 ≤ second.countP fun clock => !clock.slaves.stall) →
        observed step (taken owner) bus first <+: observed step reaches bus body) := by
  have quiet := apart.quiet
  obtain ⟨isolated, balance⟩ := isolated_body quiet held proper
  refine ⟨fun clock side => ⟨?_, ?_⟩, ?_, isolated, fun last low => ?_, fun none => ⟨balance none, ?_⟩⟩
  · simp [reaches, quiet.cyc]
  · cases side <;> simp [returned, WbPriArbiter.pass, quiet.err, quiet.ack]
  · rintro first second rfl
    exact owner_run held.append.1
  · exact isolated_end quiet held proper low
  · rintro first second rfl free
    exact delivers quiet held proper none free

instance decidableHeld : (bus : SharedBus aw dw) → (clocks : List (BusClock aw dw)) →
    Decidable (Held bus clocks)
  | _, [] => inferInstanceAs (Decidable True)
  | bus, clock :: rest =>
      @instDecidableAnd _ _ inferInstance
        (@instDecidableAnd _ _ inferInstance (decidableHeld (bus.step clock) rest))

instance decidableProper : (bus : SharedBus aw dw) → (clocks : List (BusClock aw dw)) →
    Decidable (Proper bus clocks)
  | _, [] => inferInstanceAs (Decidable True)
  | bus, clock :: rest =>
      @instDecidableAnd _ _ inferInstance (decidableProper (bus.step clock) rest)

def idleMaster : Master 23 32 := ⟨false, false, ⟨false, 0, 0, 0⟩⟩

/-- A read of an address. -/
def asking (addr : BitVec 23) : Master 23 32 := ⟨true, true, ⟨false, addr, 0, 15⟩⟩

/-- The second master asks while the first is away, and is interrupted by
neither its return nor a stall. -/
theorem second_master_isolated :
    let before : List (BusClock 23 32) := [⟨false, idleMaster, asking 1, ⟨false, false, false, 0⟩⟩]
    let body : List (BusClock 23 32) :=
      [⟨false, asking 7, asking 1, ⟨false, false, false, 0⟩⟩,
        ⟨false, asking 7, asking 2, ⟨true, false, false, 0⟩⟩,
        ⟨false, asking 7, asking 3, ⟨false, true, false, 0⟩⟩]
    let bus := clocked step initial before
    Isolated .b bus body ∧ observed step (taken .b) bus body = [⟨false, 1, 0, 15⟩, ⟨false, 2, 0, 15⟩] := by
  intro before body bus
  have apart : Apart before := @Apart.idle _ _ [] _ rfl
  have held : Held bus body := by decide
  have proper : Proper bus body := by decide
  exact ⟨(bus_cycle_isolated apart held proper).2.2.1, by decide⟩

end SharedBus

end ZipVersa.Board
