import ZipVersa.DebugBus.Codewords

/-! What `wbuexec` does with the commands of writes, seen from the bus. An
`Executor` takes a command at once; the circuit takes its time over a write and
over the acknowledgements after the last, and `follows_run` accounts for the
write still under way. -/

set_option autoImplicit false

namespace ZipVersa.DebugBus

open Lib

/-- A Wishbone write: the address and the data. -/
abbrev Write := BitVec 32 × BitVec 32

/-- The address register, and `r_inc` while writes go on. -/
structure Executor where
  addr : BitVec 32
  writing : Option Bool
  deriving DecidableEq, Repr

namespace Executor

def advance (addr : BitVec 32) (inc : Bool) : BitVec 32 := if inc then addr + 1 else addr

/-- The increment bit of the first write holds for all that follow. Commands
that `wbuexec` answers with an error, and reads, have no place here. -/
def take (executor : Executor) : Command → Option (Executor × List Write)
  | .setAddress addr =>
      if executor.writing = none then some ({ executor with addr }, []) else none
  | .moveAddress offset =>
      if executor.writing = none then some ({ executor with addr := executor.addr + offset }, [])
      else none
  | .write inc data =>
      let used := executor.writing.getD inc
      some (⟨advance executor.addr used, some used⟩, [(executor.addr, data)])
  | .endOfWrites => some ({ executor with writing := none }, [])
  | .read _ _ => none
  | .none => none

def takes (executor : Executor) : List Command → Option (Executor × List Write)
  | [] => some (executor, [])
  | command :: rest =>
      (executor.take command).bind fun (taken, writes) =>
        (taken.takes rest).map fun (last, more) => (last, writes ++ more)

theorem takes_append {executor between last : Executor} {first second : List Command}
    {writes more : List Write} (start : executor.takes first = some (between, writes))
    (rest : between.takes second = some (last, more)) :
    executor.takes (first ++ second) = some (last, writes ++ more) := by
  induction first generalizing executor writes with
  | nil =>
      cases start
      exact rest
  | cons command later ih =>
      obtain ⟨⟨taken, some⟩, done, found⟩ := Option.bind_eq_some_iff.mp start
      obtain ⟨⟨final, others⟩, run, same⟩ := Option.map_eq_some_iff.mp found
      cases same
      rw [List.cons_append, takes, done, Option.bind_some]
      dsimp only
      rw [ih run, Option.map_some, List.append_assoc]

end Executor

/-! ### The circuit follows -/

/-- The circuit at any clock of a run of writes: what it has taken, and the
write it has yet to make. -/
inductive Follows (exec : Exec) (executor : Executor) : List Write → Prop where
  | idle : exec.state = .idle → exec.stb = false → executor = ⟨exec.addr, none⟩ →
      Follows exec executor []
  | request : exec.state = .writeRequest → exec.cyc = true → exec.stb = true → exec.we = true →
      executor = ⟨Executor.advance exec.addr exec.inc, some exec.inc⟩ →
      Follows exec executor [(exec.addr, exec.data)]
  | wait : exec.state = .waitOnNextWrite → exec.stb = false → exec.we = true →
      executor = ⟨exec.addr, some exec.inc⟩ → Follows exec executor []
  | ack : exec.state = .ack → exec.stb = false → executor = ⟨exec.addr, none⟩ →
      Follows exec executor []

/-- The writes the bus takes at a clock. -/
def Exec.writes (exec : Exec) (bus : Bus) : List Write := (exec.write bus).toList

theorem Exec.writes_of_strobe {exec : Exec} (strobe : exec.stb = false) (bus : Bus) :
    exec.writes bus = [] := by
  simp [Exec.writes, Exec.write, strobe]

namespace Follows

variable {exec : Exec} {executor : Executor} {pending : List Write}

/-- A clock without a codeword. -/
theorem quiet (follows : Follows exec executor pending) (word : Word) {bus : Bus}
    (noErr : bus.err = false) :
    ∃ later, Follows (exec.step false word bus) executor later ∧
      pending = exec.writes bus ++ later := by
  cases follows with
  | idle state strobe same =>
      refine ⟨[], .idle ?_ ?_ ?_, by rw [exec.writes_of_strobe strobe]; rfl⟩
      · rw [Exec.step_silent state]
        exact state
      · rw [Exec.step_silent state]
        rfl
      · rw [Exec.step_silent state]
        exact same
  | request state cycle strobe direction same =>
      cases stalled : bus.stall with
      | true =>
          refine ⟨[(exec.addr, exec.data)], ?_, by simp [Exec.writes, Exec.write, stalled]⟩
          have kept : (exec.step false word bus).addr = exec.addr ∧
              (exec.step false word bus).data = exec.data ∧
              (exec.step false word bus).inc = exec.inc := by
            simp [Exec.step, state, Exec.fromWrite, Exec.counters, stalled]
          rw [← kept.1, ← kept.2.1]
          refine .request ?_ ?_ ?_ ?_ ?_
          · simp [Exec.step, state, Exec.fromWrite, noErr, stalled]
          · simp [Exec.step, state, Exec.fromWrite, noErr]
          · simp [Exec.step, state, Exec.fromWrite, noErr, stalled]
          · simp [Exec.step, state, Exec.fromWrite, Exec.counters, direction]
          · rw [kept.1, kept.2.2]
            exact same
      | false =>
          refine ⟨[], .wait ?_ ?_ ?_ ?_, ?_⟩
          · simp [Exec.step, state, Exec.fromWrite, noErr, stalled]
          · simp [Exec.step, state, Exec.fromWrite, stalled]
          · simp [Exec.step, state, Exec.fromWrite, Exec.counters, direction]
          · rw [same]
            simp [Exec.step, state, Exec.fromWrite, Exec.counters, stalled, Executor.advance]
          · simp [Exec.writes, Exec.write, cycle, strobe, direction, stalled]
  | wait state strobe direction same =>
      refine ⟨[], .wait ?_ ?_ ?_ ?_, by rw [exec.writes_of_strobe strobe]; rfl⟩
      · simp [Exec.step, state, Exec.fromWait, Exec.newErr, Exec.newWr, Exec.eow, noErr,
          Exec.counters]
      · simp [Exec.step, state, Exec.fromWait, Exec.newErr, Exec.newWr, Exec.eow, noErr]
      · simp [Exec.step, state, Exec.fromWait, Exec.newErr, Exec.newWr, Exec.eow, noErr,
          Exec.counters, direction]
      · simp [Exec.step, state, Exec.fromWait, Exec.newErr, Exec.newWr, Exec.eow, noErr,
          Exec.counters, same]
  | ack state strobe same =>
      have stopped : (exec.step false word bus).stb = false := by
        simp [Exec.step, state, Exec.fromAck]
      have kept : (exec.step false word bus).addr = exec.addr := by
        simp [Exec.step, state, Exec.fromAck, Exec.counters]
      refine ⟨[], ?_, by rw [exec.writes_of_strobe strobe]; rfl⟩
      rw [← kept] at same
      by_cases done : (exec.lastAck && bus.ack || exec.zeroAcks || bus.err) = true
      · refine .idle ?_ stopped same
        simp only [Exec.step, state, Exec.fromAck, if_pos done]
      · refine .ack ?_ stopped same
        simp only [Exec.step, state, Exec.fromAck, if_neg done]

/-- A codeword in `WB_IDLE`. -/
theorem idle_codeword (state : exec.state = .idle) {word : Word} {bus : Bus} {next : Executor}
    {writes : List Write} (taken : (⟨exec.addr, none⟩ : Executor).take (decode word) =
      some (next, writes)) : Follows (exec.step true word bus) next writes := by
  rw [Exec.step_idle state]
  cases meaning : decode word with
  | setAddress addr =>
      rw [meaning] at taken
      cases taken
      exact .idle state rfl rfl
  | moveAddress offset =>
      rw [meaning] at taken
      cases taken
      exact .idle state rfl rfl
  | write inc data =>
      rw [meaning] at taken
      cases taken
      obtain ⟨flag, held, direction⟩ :=
        exec.idling_write meaning (exec.counters true word bus)
      change Follows _ ⟨Executor.advance exec.addr inc, some inc⟩ [(exec.addr, data)]
      rw [← flag, ← held]
      exact .request rfl rfl rfl direction rfl
  | read inc len =>
      rw [meaning] at taken
      cases taken
  | endOfWrites =>
      rw [meaning] at taken
      cases taken
      exact .idle state rfl rfl
  | none =>
      rw [meaning] at taken
      cases taken

/-- A codeword in `WB_WAIT_ON_NEXT_WRITE`. -/
theorem wait_codeword (state : exec.state = .waitOnNextWrite) (direction : exec.we = true)
    {word : Word} (plain : word.extractLsb' 33 3 ≠ 0b010) {bus : Bus} (noErr : bus.err = false)
    {next : Executor} {writes : List Write}
    (taken : (⟨exec.addr, some exec.inc⟩ : Executor).take (decode word) = some (next, writes)) :
    Follows (exec.step true word bus) next writes := by
  have ready : exec.busy = false := by simp [Exec.busy, state]
  cases meaning : decode word with
  | setAddress addr =>
      rw [meaning] at taken
      cases taken
  | moveAddress offset =>
      rw [meaning] at taken
      cases taken
  | write inc data =>
      rw [meaning] at taken
      cases taken
      obtain ⟨code, held⟩ := decode_eq_write meaning
      have raw : ∀ bits : BitVec 3, bits.extractLsb' 1 2 = 0b01 → bits ≠ 0b010 → bits = 0b011 := by
        decide
      have three : word.extractLsb' 33 3 = 0b011 :=
        raw _ (by rw [← extract_34_2_eq, code]) plain
      have fine : exec.newErr true word = false := by simp [Exec.newErr, three]
      have isNew : exec.newWr true word = true := by simp [Exec.newWr, ready, code]
      have stepped : exec.step true word bus = { exec.counters true word bus with
          outCodword := Exec.report 5 bus.data
          outStb := false
          data := data
          cyc := true
          state := .writeRequest
          stb := true } := by
        simp only [Exec.step, state, Exec.fromWait, fine, noErr, isNew, held]
        rfl
      rw [stepped]
      exact .request rfl rfl rfl direction rfl
  | read inc len =>
      rw [meaning] at taken
      cases taken
  | endOfWrites =>
      rw [meaning] at taken
      cases taken
      have code := decode_eq_endOfWrites meaning
      have fine : exec.newErr true word = false := by simp [Exec.newErr, code]
      have notNew : exec.newWr true word = false := by
        simp only [Exec.newWr, extract_34_2, ← extract_30_6, code]
        simp
      have ends : exec.eow true word = true := by simp [Exec.eow, ready, code]
      have stepped : exec.step true word bus = { exec.counters true word bus with
          outCodword := Exec.report 5 bus.data
          outStb := false
          data := codData word
          cyc := true
          state := .ack
          stb := false } := by
        simp only [Exec.step, state, Exec.fromWait, fine, noErr, notNew, ends]
        rfl
      rw [stepped]
      exact .ack rfl rfl rfl
  | none =>
      rw [meaning] at taken
      cases taken

/-- A clock with a codeword, when the circuit takes one. -/
theorem codeword (follows : Follows exec executor pending) (ready : exec.busy = false)
    {word : Word} (plain : word.extractLsb' 33 3 ≠ 0b010) {bus : Bus} (noErr : bus.err = false)
    {next : Executor} {writes : List Write}
    (taken : executor.take (decode word) = some (next, writes)) :
    pending = [] ∧ exec.writes bus = [] ∧ Follows (exec.step true word bus) next writes := by
  cases follows with
  | idle state strobe same =>
      rw [same] at taken
      exact ⟨rfl, exec.writes_of_strobe strobe bus, idle_codeword state taken⟩
  | request state => simp [Exec.busy, state] at ready
  | wait state strobe direction same =>
      rw [same] at taken
      exact ⟨rfl, exec.writes_of_strobe strobe bus,
        wait_codeword state direction plain noErr taken⟩
  | ack state => simp [Exec.busy, state] at ready

end Follows

/-! ### The device -/

/-- The serial port and the bus at one clock. -/
structure Clock where
  serial : Serial
  bus : Bus

/-- `wbuinput` and `wbuexec`, connected. -/
structure Device where
  input : WbuInput
  exec : Exec

namespace Device

def step (device : Device) (clock : Clock) : Device where
  input := device.input.step clock.serial
  exec := device.exec.step device.input.dc.stb device.input.dc.word clock.bus

/-- The writes the bus takes. -/
def writes (device : Device) (clock : Clock) : List Write := device.exec.writes clock.bus

/-- A codeword that comes before the last request has completed. -/
def early (device : Device) (_ : Clock) : List Word :=
  if device.input.dc.stb && device.exec.busy then [device.input.dc.word] else []

end Device

/-- Whatever the executor makes of the codewords of a run, the circuit writes,
but for what is still pending at the end. -/
theorem follows_run {device : Device} {executor last : Executor} {pending writes : List Write}
    {clocks : List Clock} (follows : Follows device.exec executor pending)
    (noErr : ∀ clock ∈ clocks, clock.bus.err = false)
    (inTime : observed Device.step Device.early device clocks = [])
    (plain : ∀ word ∈ observed WbuInput.step WbuInput.words device.input
      (clocks.map Clock.serial), word.extractLsb' 33 3 ≠ 0b010)
    (taken : executor.takes ((observed WbuInput.step WbuInput.words device.input
      (clocks.map Clock.serial)).map decode) = some (last, writes)) :
    ∃ later, Follows (clocked Device.step device clocks).exec last later ∧
      pending ++ writes = observed Device.step Device.writes device clocks ++ later := by
  induction clocks generalizing device executor pending writes with
  | nil =>
      cases taken
      exact ⟨pending, follows, by simp [observed]⟩
  | cons clock rest ih =>
      have fine := noErr clock (.head _)
      have others : ∀ other ∈ rest, other.bus.err = false := fun other member =>
        noErr other (.tail _ member)
      obtain ⟨now, later⟩ := List.append_eq_nil_iff.mp inTime
      rw [List.map_cons, observed] at taken plain
      cases strobe : device.input.dc.stb with
      | false =>
          have silent := WbuInput.words_of_stb clock.serial strobe
          rw [silent, List.nil_append] at taken plain
          obtain ⟨kept, stays, split⟩ := follows.quiet device.input.dc.word fine
          have stepped : (device.step clock).exec =
              device.exec.step false device.input.dc.word clock.bus := by
            rw [Device.step, strobe]
          rw [← stepped] at stays
          obtain ⟨final, ended, total⟩ := ih stays others later plain taken
          refine ⟨final, ended, ?_⟩
          rw [split, observed, List.append_assoc, total, List.append_assoc]
          rfl
      | true =>
          have word : device.input.words clock.serial = [device.input.dc.word] := by
            simp [WbuInput.words, WbuInput.output, strobe]
          have ready : device.exec.busy = false := by simpa [Device.early, strobe] using now
          rw [word, List.singleton_append] at taken plain
          obtain ⟨⟨next, made⟩, took, run⟩ := Option.bind_eq_some_iff.mp taken
          obtain ⟨⟨stop, more⟩, rest', same⟩ := Option.map_eq_some_iff.mp run
          cases same
          obtain ⟨rfl, none, stays⟩ := follows.codeword ready (plain _ (.head _)) fine took
          have stepped : (device.step clock).exec =
              device.exec.step true device.input.dc.word clock.bus := by
            rw [Device.step, strobe]
          rw [← stepped] at stays
          obtain ⟨final, ended, total⟩ := ih stays others later
            (fun word member => plain word (.tail _ member)) rest'
          refine ⟨final, ended, ?_⟩
          rw [List.nil_append, total, observed, Device.writes, none]
          rfl

end ZipVersa.DebugBus
