import ZipVersa.DebugBus.Bursts

/-! `i_wb_err` in the middle of a burst. The state, the bus lines and the
codeword are set by separate branches of one clock, and in two places a later
branch has the last word. -/

set_option autoImplicit false

namespace ZipVersa.DebugBus

open Lib

namespace Exec

variable {exec : Exec} {clock : ExecClock} {clocks : List ExecClock}

def Bursting (exec : Exec) : Prop :=
  exec.state ≠ .idle ∧ exec.state ≠ .flushWriteRequests

/-- `{ 6'h5, .. }`. -/
def isError (word : Word) : Bool := word.extractLsb' 30 6 == 5

/-- Codewords of the burst are still to come: it is one of writes, and this
clock does not take its end. -/
def unended (exec : Exec) (clock : ExecClock) : Bool :=
  exec.state == .writeRequest ||
    exec.state == .waitOnNextWrite && !exec.eow clock.iStb clock.word &&
      !exec.newErr clock.iStb clock.word

/-- What is left of a burst: if it is not `ended`, more writes, and the end of
writes if `closed`. -/
inductive Remainder (ended : Bool) : List Word → Bool → Prop where
  | done : ended = true → Remainder ended [] true
  | words {words : List Word} : ended = false →
      (∀ word ∈ words, word.extractLsb' 33 3 = 0b011) → Remainder ended words false
  | closed {words : List Word} {last : Word} : ended = false →
      (∀ word ∈ words, word.extractLsb' 33 3 = 0b011) → decode last = .endOfWrites →
      Remainder ended (words ++ [last]) true

/-- After an error: while nothing but the rest of the burst is taken no request
is presented and one error is reported, and a read that comes next makes as many
requests as it asks for. -/
def Recovers (exec : Exec) (clock : ExecClock) : Prop :=
  ∀ clocks closed,
    Remainder (!exec.unended clock) (observed tick takes (exec.tick clock) clocks) closed →
    (clocked tick exec (clock :: clocks)).stb = false ∧
      (observed tick results exec (clock :: clocks)).countP isError = 1 ∧
      (closed = true → ∀ command inc len more,
        (clocked tick exec (clock :: clocks)).takes command = [command.word] →
        decode command.word = .read inc len → 0 < len.toNat →
        (∀ clock ∈ more, clock.bus.err = false) →
        observed tick takes (clocked tick exec (clock :: clocks ++ [command])) more = [] →
        observed tick requests (clocked tick exec (clock :: clocks ++ [command])) more =
          (readRequests (clocked tick exec (clock :: clocks)).addr inc len.toNat).take
            (more.countP ExecClock.unstalled))

/-- The burst is given up: `WB_FLUSH_WRITE_REQUESTS` until its end has come. -/
inductive Aborted : Bool → Exec → Prop where
  | flush {exec : Exec} : exec.state = .flushWriteRequests → exec.cyc = false →
      exec.stb = false → Aborted false exec
  | idle {exec : Exec} : exec.Idles → Aborted true exec

theorem isError_report (data : BitVec 32) : isError (report 5 data) = true := by
  have code : (report 5 data).extractLsb' 30 6 = 5 := by
    apply BitVec.eq_of_getLsbD_eq
    intro position inside
    unfold report
    erw [BitVec.getLsbD_extractLsb', BitVec.getLsbD_append]
    simp [inside]
  rw [isError, code]
  rfl

theorem tick_flush (state : exec.state = .flushWriteRequests) :
    exec.tick clock = { exec.counters clock.iStb clock.word clock.bus with
      cyc := false
      stb := false
      outCodword := report 5 clock.bus.data
      outStb := exec.newErr clock.iStb clock.word
      state := if exec.eow clock.iStb clock.word || exec.newErr clock.iStb clock.word then .idle
        else .flushWriteRequests } := by
  simp only [tick, Exec.step, state, fromFlush]

theorem ack_error (state : exec.state = .ack) (err : clock.bus.err = true) :
    (exec.tick clock).Idles ∧ exec.results clock = [report 5 clock.bus.data] := by
  have stepped : exec.tick clock = { exec.counters clock.iStb clock.word clock.bus with
      state := .idle
      cyc := false
      stb := false
      outStb := true
      outCodword := report 5 clock.bus.data } := by
    simp [tick, Exec.step, state, fromAck, err]
  rw [results, stepped]
  exact ⟨⟨rfl, rfl, rfl⟩, rfl⟩

/-- A clock on which an error is answered with all lines down. -/
theorem abandons (bursting : exec.Bursting) (err : clock.bus.err = true)
    (notRead : exec.state ≠ .readRequest)
    (notLast : ¬ (exec.state = .waitOnNextWrite ∧ exec.eow clock.iStb clock.word = true)) :
    Aborted (!exec.unended clock) (exec.tick clock) ∧
      exec.results clock = [report 5 clock.bus.data] := by
  obtain ⟨notIdle, notFlush⟩ := bursting
  cases state : exec.state with
  | idle => exact absurd state notIdle
  | flushWriteRequests => exact absurd state notFlush
  | readRequest => exact absurd state notRead
  | writeRequest =>
      have stepped : exec.tick clock = { exec.counters clock.iStb clock.word clock.bus with
          state := .flushWriteRequests
          cyc := false
          stb := false
          outStb := true
          outCodword := report 5 clock.bus.data
          addr := if exec.inc && !clock.bus.stall then exec.addr + 1 else exec.addr } := by
        simp [tick, Exec.step, state, fromWrite, err]
      have more : exec.unended clock = true := by simp [unended, state]
      rw [more, results, stepped]
      exact ⟨.flush rfl rfl rfl, rfl⟩
  | ack =>
      have none : exec.unended clock = false := by simp [unended, state]
      obtain ⟨idles, reported⟩ := ack_error state err
      rw [none]
      exact ⟨.idle idles, reported⟩
  | waitOnNextWrite =>
      have notEow : exec.eow clock.iStb clock.word = false := by simpa [state] using notLast
      cases wrong : exec.newErr clock.iStb clock.word with
      | true =>
          have stepped : exec.tick clock = { exec.counters clock.iStb clock.word clock.bus with
              outCodword := report 5 clock.bus.data
              outStb := true
              data := codData clock.word
              cyc := false
              state := .idle
              stb := false } := by
            simp [tick, Exec.step, state, fromWait, err, wrong]
          have none : exec.unended clock = false := by simp [unended, state, wrong]
          rw [none, results, stepped]
          exact ⟨.idle ⟨rfl, rfl, rfl⟩, rfl⟩
      | false =>
          have stepped : exec.tick clock = { exec.counters clock.iStb clock.word clock.bus with
              outCodword := report 5 clock.bus.data
              outStb := true
              data := codData clock.word
              cyc := false
              state := .flushWriteRequests
              stb := false } := by
            simp [tick, Exec.step, state, fromWait, err, wrong]
          have more : exec.unended clock = true := by simp [unended, state, wrong, notEow]
          rw [more, results, stepped]
          exact ⟨.flush rfl rfl rfl, rfl⟩

/-- In `WB_FLUSH_WRITE_REQUESTS` only the end of writes makes a difference. -/
theorem flush_word (state : exec.state = .flushWriteRequests)
    (taken : exec.takes clock = [] ∨
      exec.takes clock = [clock.word] ∧ clock.word.extractLsb' 33 3 = 0b011) :
    Aborted false (exec.tick clock) ∧ exec.results clock = [] := by
  have plain : exec.eow clock.iStb clock.word = false ∧
      exec.newErr clock.iStb clock.word = false := by
    rcases taken with none | ⟨some, code⟩
    · have low : clock.iStb = false := by simpa [takes, busy, state] using none
      simp [eow, newErr, low]
    · have six : clock.word.extractLsb' 30 6 ≠ 0x2e :=
        not_eow_of_code (by rw [← extract_33_3, code]) (by decide)
      refine ⟨?_, by simp [newErr, code]⟩
      rw [eow, beq_eq_false_iff_ne.mpr six, Bool.and_false]
  have stepped := @tick_flush exec clock state
  rw [plain.1, plain.2] at stepped
  rw [results, stepped]
  exact ⟨.flush rfl rfl rfl, rfl⟩

theorem flush_ends (state : exec.state = .flushWriteRequests)
    (taken : exec.takes clock = [clock.word]) (ends : decode clock.word = .endOfWrites) :
    Aborted true (exec.tick clock) ∧ exec.results clock = [] := by
  have high : clock.iStb = true := by simpa [takes, busy, state] using taken
  have six := decode_eq_endOfWrites ends
  have last : exec.eow clock.iStb clock.word = true := by simp [eow, high, busy, state, six]
  have fine : exec.newErr clock.iStb clock.word = false := by simp [newErr, six]
  have stepped := @tick_flush exec clock state
  rw [last, fine] at stepped
  rw [results, stepped]
  exact ⟨.idle ⟨rfl, rfl, rfl⟩, rfl⟩

theorem Remainder.of_ended {words : List Word} {closed : Bool}
    (rest : Remainder true words closed) : words = [] ∧ closed = true := by
  cases rest with
  | done => exact ⟨rfl, rfl⟩
  | words goesOn => cases goesOn
  | closed goesOn => cases goesOn

theorem Aborted.step {ended closed : Bool} {taken : List Word} (aborted : Aborted ended exec)
    (rest : Remainder ended (exec.takes clock ++ taken) closed) :
    ∃ next, Aborted next (exec.tick clock) ∧ exec.results clock = [] ∧
      Remainder next taken closed := by
  rcases exec.takes_cases clock with none | some
  · rw [none, List.nil_append] at rest
    cases aborted with
    | flush state =>
        obtain ⟨stays, hushed⟩ := flush_word state (.inl none)
        exact ⟨false, stays, hushed, rest⟩
    | idle idles =>
        obtain ⟨stays, hushed⟩ := idles.tick_silent none
        exact ⟨true, .idle stays, hushed, rest⟩
  · rw [some, List.singleton_append] at rest
    cases aborted with
    | idle idles => exact nomatch rest.of_ended.1
    | flush state =>
        generalize same : clock.word :: taken = words at rest
        cases rest with
        | done goesOn => cases goesOn
        | words _ codes =>
            subst same
            obtain ⟨stays, hushed⟩ := flush_word state (.inr ⟨some, codes _ (.head _)⟩)
            exact ⟨false, stays, hushed,
              .words rfl fun word member => codes word (.tail _ member)⟩
        | @closed words last _ codes ends =>
            cases words with
            | nil =>
                cases same
                obtain ⟨idle, hushed⟩ := flush_ends state some ends
                exact ⟨true, idle, hushed, .done rfl⟩
            | cons word words =>
                cases same
                obtain ⟨stays, hushed⟩ := flush_word state (.inr ⟨some, codes _ (.head _)⟩)
                exact ⟨false, stays, hushed,
                  .closed rfl (fun word member => codes word (.tail _ member)) ends⟩

theorem Aborted.run {ended closed : Bool} (aborted : Aborted ended exec)
    (rest : Remainder ended (observed tick takes exec clocks) closed) :
    Aborted closed (clocked tick exec clocks) ∧ observed tick results exec clocks = [] := by
  induction clocks generalizing exec ended with
  | nil =>
      generalize none : observed tick takes exec [] = taken at rest
      cases rest with
      | done same => exact ⟨same ▸ aborted, rfl⟩
      | words goesOn => exact ⟨goesOn ▸ aborted, rfl⟩
      | @closed words last => cases words <;> cases none
  | cons clock later ih =>
      obtain ⟨next, stays, hushed, others⟩ := aborted.step rest
      obtain ⟨last, none⟩ := ih stays others
      exact ⟨last, by rw [observed, hushed, none]; rfl⟩

theorem Aborted.strobe {ended : Bool} (aborted : Aborted ended exec) : exec.stb = false := by
  cases aborted with
  | flush _ _ strobe => exact strobe
  | idle idles => exact idles.stb

theorem recovers_of_abandons (aborted : Aborted (!exec.unended clock) (exec.tick clock))
    (reported : exec.results clock = [report 5 clock.bus.data]) : exec.Recovers clock := by
  intro clocks closed rest
  obtain ⟨last, none⟩ := aborted.run rest
  refine ⟨last.strobe, ?_, ?_⟩
  · rw [observed, reported, none, List.append_nil, List.countP_singleton, isError_report]
    rfl
  · rintro rfl command inc len more taken read positive noErr silent
    cases last with
    | idle idles =>
        have strobe : command.iStb = true := by
          simpa [takes, busy, idles.state] using taken
        obtain ⟨start, -, -⟩ := read_codeword idles strobe read positive
        rw [clocked_append] at silent ⊢
        have requested := (start.run noErr silent).2
        rw [List.drop_zero] at requested
        exact requested

/-! ### Where a later branch has the last word -/

theorem tick_read (state : exec.state = .readRequest) (err : clock.bus.err = true) :
    exec.tick clock =
      let last := !clock.bus.stall && (exec.singleReadRequest || exec.lastReadRequest)
      { exec.counters clock.iStb clock.word clock.bus with
        state := if last then .ack else .idle
        cyc := true
        stb := !last
        outStb := true
        outCodword := report 5 clock.bus.data
        addr := if exec.inc && !clock.bus.stall then exec.addr + 1 else exec.addr } := by
  simp [tick, Exec.step, state, fromRead, err]

/-- In `WB_READ_REQUEST` either the strobe stays, or `WB_ACK` reports the next
error too. -/
theorem read_goes_on (state : exec.state = .readRequest) (err : clock.bus.err = true) :
    ¬ exec.Recovers clock := by
  intro recovers
  have ended : exec.unended clock = false := by simp [unended, state]
  have stepped := tick_read state err
  cases last : !clock.bus.stall && (exec.singleReadRequest || exec.lastReadRequest) with
  | false =>
      obtain ⟨strobe, -⟩ := recovers [] true (.done (by rw [ended]; rfl))
      rw [clocked_cons, clocked_nil, stepped, last] at strobe
      cases strobe
  | true =>
      let second : ExecClock := ⟨false, 0, ⟨false, false, true, 0⟩⟩
      have acks : (exec.tick clock).state = .ack := by rw [stepped, last]; rfl
      have silent : observed tick takes (exec.tick clock) [second] = [] := rfl
      obtain ⟨-, once, -⟩ := recovers [second] true (by rw [silent]; exact .done (by rw [ended]; rfl))
      have first : exec.results clock = [report 5 clock.bus.data] := by rw [results, stepped]; rfl
      have again : (exec.tick clock).results second = [report 5 0] := (ack_error acks rfl).2
      have two : ([report 5 clock.bus.data, report 5 0] : List Word).countP isError = 2 := by
        rw [List.countP_eq_length.mpr]
        · rfl
        · intro word member
          rcases List.mem_cons.mp member with rfl | other
          · exact isError_report _
          · rw [List.mem_singleton.mp other]
            exact isError_report _
      rw [observed, observed, observed, first, again] at once
      cases two.symm.trans once

/-- An end of writes that comes with the error is lost, and the next command
with it. -/
theorem end_lost (state : exec.state = .waitOnNextWrite)
    (ends : exec.eow clock.iStb clock.word = true) (err : clock.bus.err = true) :
    ¬ exec.Recovers clock := by
  intro recovers
  have ended : exec.unended clock = false := by simp [unended, state, ends]
  obtain ⟨-, -, next⟩ := recovers [] true (.done (by rw [ended]; rfl))
  have six : clock.word.extractLsb' 30 6 = 0x2e := by
    simp only [eow, Bool.and_eq_true, beq_iff_eq] at ends
    exact ends.2
  have fine : exec.newErr clock.iStb clock.word = false := by simp [newErr, six]
  have flushes : (exec.tick clock).state = .flushWriteRequests := by
    simp [tick, Exec.step, state, fromWait, err, fine]
  -- a read of one word is answered with an error and forgotten
  let command := given (readWord 0 1)
  have taken : (exec.tick clock).takes command = [command.word] := by
    simp [takes, busy, flushes, command, given]
  have dropped : ((exec.tick clock).tick command).cyc = false := by
    rw [tick_flush flushes]
  have request := next rfl command false 1 [answer false false 0] taken (decode_read 0 1)
    (by decide) (by decide) (by rfl)
  simp [observed, requests, dropped, readRequests, ExecClock.unstalled, answer] at request

/-- An error meets the requests of a read, or comes with the end of writes. -/
theorem recovers_iff (bursting : exec.Bursting) (err : clock.bus.err = true) :
    exec.Recovers clock ↔ exec.state ≠ .readRequest ∧
      ¬ (exec.state = .waitOnNextWrite ∧ exec.eow clock.iStb clock.word = true) := by
  constructor
  · intro recovers
    refine ⟨fun read => ?_, fun ⟨waits, ends⟩ => ?_⟩
    · exact read_goes_on read err recovers
    · exact end_lost waits ends err recovers
  · rintro ⟨notRead, notLast⟩
    obtain ⟨aborted, reported⟩ := abandons bursting err notRead notLast
    exact recovers_of_abandons aborted reported

instance (exec : Exec) : Decidable exec.Bursting :=
  inferInstanceAs (Decidable (exec.state ≠ .idle ∧ exec.state ≠ .flushWriteRequests))

/-- A clock on which the bus reports an error. -/
def failing (stall : Bool) : ExecClock := ⟨false, 0, ⟨stall, false, true, 0⟩⟩

/-- A read of one word whose request has been taken. -/
theorem one_word_recovered :
    (clocked tick reset [given (readWord 1 1), answer false false 0]).Recovers (failing false) :=
  (recovers_iff (by decide) rfl).mpr ⟨by decide, by decide⟩

/-- A read of four words: the bus has taken the first and answers it with an
error, and takes one more request afterwards. -/
theorem four_words_asked_again :
    ¬ (clocked tick reset [given (readWord 1 4), answer false false 0]).Recovers (failing true) ∧
      observed tick requests (clocked tick reset [given (readWord 1 4), answer false false 0])
        [failing true, answer false false 0] = [.read 1] :=
  ⟨read_goes_on (by decide) rfl, by decide⟩

end Exec

end ZipVersa.DebugBus
