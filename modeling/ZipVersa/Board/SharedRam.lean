import ZipVersa.Board.Isolation
import ZipVersa.Board.Interconnect

/-! From the masters to the peripherals: the arbiter and `busdelay`, and behind
them the bus `wb` with its block RAM, as `main.v` connects them. -/

set_option autoImplicit false

namespace ZipVersa.Board

open Lib

/-- The masters and the peripherals at one clock. -/
structure BoardClock where
  a : Master 23 32
  b : Master 23 32
  devices : Device → Lines
  singles : BitVec 4 → BitVec 32

/-- The buses, and of the bus cycle of the master that has them the requests that
were accepted from it, those that the peripherals have accepted, and the answers
that it has heard. -/
structure BoardRun where
  shared : SharedBus 23 32
  wb : WbRun
  taken : List (WbRequest 23 32)
  served : List Due
  back : List (Answer 32)

namespace BoardRun

/-- What the bus `wb` sees. -/
def wbClock (run : BoardRun) (clock : BoardClock) : WbClock :=
  ⟨run.shared.delay.oDlyCyc, run.shared.delay.oDlyStb, run.shared.delay.oDly, clock.devices,
    clock.singles⟩

/-- What `wb` gives back to `busdelay`. -/
def slaves (run : BoardRun) (clock : BoardClock) : Slaves 32 where
  stall := run.wb.bus.stall run.shared.delay.oDly.addr clock.devices
  ack := run.wb.bus.fabric.wbAck
  err := run.wb.bus.err run.shared.delay.oDlyStb run.shared.delay.oDly.addr
  data := run.wb.bus.fabric.wbIdata

def busClock (run : BoardRun) (clock : BoardClock) : BusClock 23 32 :=
  ⟨false, clock.a, clock.b, run.slaves clock⟩

/-- The master that has the bus is in a bus cycle. -/
def held (run : BoardRun) (clock : BoardClock) : Bool :=
  (run.shared.driven (run.busClock clock)).cyc

def step (run : BoardRun) (clock : BoardClock) : BoardRun where
  shared := run.shared.step (run.busClock clock)
  wb := run.wb.step (run.wbClock clock)
  taken :=
    if run.held clock then
      run.taken ++ SharedBus.taken run.shared.arbiter.owner run.shared (run.busClock clock)
    else []
  served := if run.held clock then run.served ++ (run.wb.due (run.wbClock clock)).toList else []
  back :=
    if run.held clock then
      run.back ++ SharedBus.returned run.shared.arbiter.owner run.shared (run.busClock clock)
    else []

/-- Power-up, with anything in the block RAM and in the registers of `wb`; its
first clock is no bus cycle. -/
def start (bus : WbBus) : BoardRun := ⟨SharedBus.initial, WbRun.start bus, [], [], []⟩

/-- The part of the others: the peripherals acknowledge what they were asked for,
the masters ask none while an answer of another is outstanding, and a master
leaves the bus when it is told of an error. -/
structure Legal (run : BoardRun) (clock : BoardClock) : Prop where
  answers : ∀ device, run.shared.delay.oDlyCyc = true → (clock.devices device).ack = true →
    device ∈ run.wb.pending.map fun due => due.device.port
  apart : ∀ device, run.wb.bus.accepts (run.wbClock clock) = some device →
    ∀ due ∈ run.wb.left (run.wbClock clock), due.device.port = device.port
  leaves : .err ∈ run.back → run.held clock = false

inductive Reaches : BoardRun → Prop where
  | start (bus : WbBus) (clock : BoardClock) : Reaches ((start bus).step clock)
  | step {run : BoardRun} {clock : BoardClock} : Reaches run → run.Legal clock →
      Reaches (run.step clock)

/-- The answers of a cycle against what was served in it: the peripherals accept
the requests in their order, each acknowledgement is to one of them, and it
carries the word that the block RAM or the register of that address held when the
request was accepted. -/
structure Heard (served : List Due) (taken : List (WbRequest 23 32)) (back : List (Answer 32)) :
    Prop where
  order : served.map Due.request <+: taken
  asked : ∀ (index : Nat) (data : BitVec 32), back[index]? = some (.ack data) →
    index < served.length
  words : ∀ (index : Nat) (due : Due) (data word : BitVec 32), served[index]? = some due →
    back[index]? = some (.ack data) → due.word = some word → data = word

/-- What the master that has the bus is told, and what the block RAM holds for
both. -/
structure Hears (run : BoardRun) : Prop where
  heard : Heard run.served run.taken run.back
  memory : run.wb.bus.ram.settled = run.wb.contents

/-! ### Between the two buses -/

variable {run : BoardRun} {clock : BoardClock}

/-- The strobe behind `busdelay` is in a bus cycle. -/
theorem cyc_of_stb {delay : BusDelay 23 32} {wb : Master 23 32} {dly : Slaves 32}
    (stb : (delay.step false wb dly).oDlyStb = true) :
    (delay.step false wb dly).oDlyCyc = true := by
  simp only [BusDelay.step] at stb ⊢
  cases cyc : wb.cyc <;> cases err : dly.err <;> cases opened : delay.oDlyCyc <;>
    cases error : delay.oWbErr <;> simp_all

/-- The bus `wb` gives what is heard. -/
theorem heard_of_serves {wb : WbRun} {taken : List (WbRequest 23 32)} {back : List (Answer 32)}
    (serves : wb.Serves) (order : wb.asked.map Due.request <+: taken)
    (some : back <+: wb.returned.map .ack) : Heard wb.asked taken back := by
  have reply {index : Nat} {data : BitVec 32} (heard : back[index]? = .some (.ack data)) :
      ∃ reply ∈ wb.replies, wb.asked[index]? = .some reply.due ∧ reply.data = data := by
    have returned : wb.returned[index]? = .some data := by
      obtain ⟨later, whole⟩ := some
      have within := (List.getElem?_eq_some_iff.mp heard).1
      rw [← List.getElem?_append_left within, whole, List.getElem?_map] at heard
      simpa using heard
    have short := (List.getElem?_eq_some_iff.mp returned).1
    have data_eq : (wb.replies.map Reply.data)[index]? = .some data := by
      rw [← serves.back, List.getElem?_append_left short, returned]
    rw [List.getElem?_map] at data_eq
    obtain ⟨reply, member, own⟩ := Option.map_eq_some_iff.mp data_eq
    refine ⟨reply, List.mem_of_getElem? member, ?_, own⟩
    have within := (List.getElem?_eq_some_iff.mp member).1
    rw [← serves.order, List.getElem?_append_left (by simpa using within), List.getElem?_map, member]
    rfl
  refine ⟨order, fun index data heard => ?_, fun index due data word served heard known => ?_⟩
  · obtain ⟨_, _, found, _⟩ := reply heard
    exact (List.getElem?_eq_some_iff.mp found).1
  · obtain ⟨reply, member, found, rfl⟩ := reply heard
    rw [served, Option.some.injEq] at found
    exact (serves.right reply member).2 word (by rw [← found, known])

/-- More requests, and an error at the end, change nothing. -/
theorem Heard.grow {served : List Due} {taken later : List (WbRequest 23 32)}
    {back : List (Answer 32)} (heard : Heard served taken back) :
    Heard served (taken ++ later) (back ++ [.err]) := by
  have before {index : Nat} {data : BitVec 32}
      (ack : (back ++ [Answer.err])[index]? = some (.ack data)) : back[index]? = some (.ack data) := by
    rcases Nat.lt_or_ge index back.length with short | long
    · rwa [List.getElem?_append_left short] at ack
    · rw [List.getElem?_append_right long] at ack
      have only := List.mem_of_getElem? ack
      rw [List.mem_singleton] at only
      cases only
  exact ⟨heard.order.trans (List.prefix_append _ _), fun index data ack => heard.asked index data (before ack),
    fun index due data word own ack => heard.words index due data word own (before ack)⟩

theorem heard_nil (taken : List (WbRequest 23 32)) : Heard [] taken [] := by
  refine ⟨List.nil_prefix, ?_, ?_⟩ <;> simp

/-! ### A bus cycle of a master -/

/-- No bus cycle yet, one under way on both buses, one that has met an error, and
one whose master has been told. -/
inductive Phase (run : BoardRun) : Prop where
  | fresh : run.shared.Quiet → run.taken = [] → run.served = [] → run.back = [] → Phase run
  | running : run.shared.delay.oWbErr = false → run.shared.delay.oDlyCyc = true →
      SharedBus.Cycle run.taken (run.wb.asked.map Due.request) (run.wb.returned.map .ack) run.back
        run.shared →
      run.served = run.wb.asked → Phase run
  | failed : run.shared.delay.oWbErr = true → run.shared.delay.oDlyCyc = false →
      run.shared.delay.oDlyStb = false → Heard run.served run.taken run.back → Phase run
  | ended : run.shared.Quiet → .err ∈ run.back → Heard run.served run.taken run.back → Phase run

/-- Without a bus cycle on `wb` nothing is accepted there. -/
theorem due_eq_none_of_stb (stb : run.shared.delay.oDlyStb = false) :
    run.wb.due (run.wbClock clock) = none := by
  simp [WbRun.due, WbBus.accepts, wbClock, stb]

/-- What reaches the peripherals is what they accept, unless it is for none. -/
theorem reaches_eq (cyc : run.shared.delay.oDlyCyc = true)
    (fine : run.wb.bus.err run.shared.delay.oDlyStb run.shared.delay.oDly.addr = false) :
    run.shared.reaches (run.busClock clock) =
      (run.wb.due (run.wbClock clock)).toList.map Due.request := by
  simp only [SharedBus.reaches, busClock, slaves, WbRun.due, WbBus.accepts, wbClock, cyc,
    Bool.true_and]
  cases ready : run.shared.delay.oDlyStb &&
      !run.wb.bus.stall run.shared.delay.oDly.addr clock.devices with
  | false => simp
  | true =>
      obtain ⟨stb, -⟩ := Bool.and_eq_true_iff.mp ready
      cases at' : Device.ofAddr run.shared.delay.oDly.addr with
      | some device => simp
      | none =>
          have nobody : WbBus.noneSel true run.shared.delay.oDly.addr = true := by
            rw [WbBus.noneSel, Bool.true_and, List.all_eq_true]
            intro device _
            rw [Bool.not_eq_true', ← Bool.not_eq_true, Device.sel_iff, at']
            rintro ⟨⟩
          simp [WbBus.err, stb, nobody] at fine

/-- A request for none is accepted by none. -/
theorem due_of_err (one : run.wb.bus.fabric.wbManyAck = false)
    (err : run.wb.bus.err run.shared.delay.oDlyStb run.shared.delay.oDly.addr = true) :
    run.wb.due (run.wbClock clock) = none := by
  have nobody : WbBus.noneSel run.shared.delay.oDlyStb run.shared.delay.oDly.addr = true := by
    simp only [WbBus.err, one, Bool.or_false, Bool.and_eq_true] at err
    exact err.2
  have at' : Device.ofAddr run.shared.delay.oDly.addr = none := by
    cases at' : Device.ofAddr run.shared.delay.oDly.addr with
    | none => rfl
    | some device =>
        have each := List.all_eq_true.mp (Bool.and_eq_true_iff.mp nobody).2 device device.mem_all
        rw [(Device.sel_iff device _).mpr at'] at each
        cases each
  simp [WbRun.due, WbBus.accepts, wbClock, at']

/-- A clock outside a bus cycle of the masters. -/
theorem fresh_of_low (low : run.held clock = false) : Phase (run.step clock) := by
  refine .fresh (SharedBus.quiet_after (.inl low)) ?_ ?_ ?_ <;> simp [step, low]

/-- The first clock of a bus cycle. -/
theorem fresh_step (quiet : run.shared.Quiet) (taken : run.taken = []) (served : run.served = [])
    (back : run.back = []) (held : run.held clock = true) : Phase (run.step clock) := by
  have cycle := @SharedBus.cycle_step _ _ _ (run.busClock clock) _ _ _ _ quiet.fresh quiet.err
    rfl held
  have reached : run.shared.reaches (run.busClock clock) = [] := by
    simp [SharedBus.reaches, quiet.cyc]
  have answered : run.shared.answers (run.busClock clock) = [] := by
    simp [SharedBus.answers, quiet.cyc]
  have asked : (run.step clock).wb.asked = [] := by simp [step, WbRun.step, wbClock, quiet.cyc]
  have returned : (run.step clock).wb.returned = [] := by
    simp [step, WbRun.step, wbClock, quiet.cyc]
  have none : run.wb.due (run.wbClock clock) = none := due_eq_none_of_stb quiet.stb
  refine .running ?_ ?_ ?_ ?_
  · simp [step, SharedBus.step, BusDelay.step, quiet.cyc]
  · have high : (run.shared.driven (run.busClock clock)).cyc = true := held
    simp [step, SharedBus.step, BusDelay.step, quiet.cyc, quiet.err, busClock] at high ⊢
    exact high
  · rw [asked, returned]
    rw [reached, answered] at cycle
    simpa [step, held, taken, back] using cycle
  · rw [asked]
    simp [step, held, served, none]

/-- A clock of a bus cycle under way. -/
theorem running_step (kept : run.wb.Kept) (error : run.shared.delay.oWbErr = false)
    (cyc : run.shared.delay.oDlyCyc = true)
    (cycle : SharedBus.Cycle run.taken (run.wb.asked.map Due.request) (run.wb.returned.map .ack)
      run.back run.shared) (served : run.served = run.wb.asked) (held : run.held clock = true) :
    Phase (run.step clock) := by
  have cycle' := @SharedBus.cycle_step _ _ _ (run.busClock clock) _ _ _ _ cycle error rfl held
  have high : (run.shared.driven (run.busClock clock)).cyc = true := held
  have returned : (run.step clock).wb.returned = run.wb.returned ++
      if run.wb.bus.fabric.wbAck then [run.wb.bus.fabric.wbIdata] else [] := by
    simp [step, WbRun.step, wbClock, cyc]
  have asked : (run.step clock).wb.asked =
      run.wb.asked ++ (run.wb.due (run.wbClock clock)).toList := by
    simp [step, WbRun.step, wbClock, cyc]
  cases err : run.wb.bus.err run.shared.delay.oDlyStb run.shared.delay.oDly.addr with
  | false =>
      have reached := @reaches_eq run clock cyc err
      have answered : run.shared.answers (run.busClock clock) =
          (if run.wb.bus.fabric.wbAck then [run.wb.bus.fabric.wbIdata] else []).map .ack := by
        simp only [SharedBus.answers, busClock, slaves, cyc, err, Bool.not_true,
          Bool.false_eq_true, if_false]
        cases run.wb.bus.fabric.wbAck <;> rfl
      refine .running ?_ ?_ ?_ ?_
      · simp [step, SharedBus.step, BusDelay.step, busClock, slaves, err]
      · simp only [step, SharedBus.step, BusDelay.step, busClock, slaves, err, error]
        rw [busClock, slaves, err] at high
        rw [high]
        rfl
      · rw [asked, returned, List.map_append, List.map_append, ← reached, ← answered]
        simpa [step, held] using cycle'
      · rw [asked, ← served]
        simp [step, held]
  | true =>
      have none : run.wb.due (run.wbClock clock) = none := due_of_err kept.one err
      have answered : run.shared.answers (run.busClock clock) = [.err] := by
        simp [SharedBus.answers, busClock, slaves, cyc, err]
      have error' : (run.step clock).shared.delay.oWbErr = true := by
        simp only [step, SharedBus.step, BusDelay.step, busClock, slaves, err, cyc]
        rw [busClock, slaves, err] at high
        rw [high]
        rfl
      have closed : (run.step clock).shared.delay.oDlyCyc = false := by
        simp [step, SharedBus.step, BusDelay.step, busClock, slaves, err, cyc]
      have low : (run.step clock).shared.delay.oDlyStb = false := by
        simp [step, SharedBus.step, BusDelay.step, busClock, slaves, err, cyc]
      refine .failed error' closed low ?_
      have served' : (run.step clock).served = run.wb.asked := by simp [step, held, none, served]
      rw [served']
      have error'' : (run.shared.step (run.busClock clock)).delay.oWbErr = true := error'
      cases cycle' with
      | running fine => rw [error''] at fine; cases fine
      | failed _ _ order answer =>
          rw [answered, List.append_cancel_right_eq] at answer
          refine heard_of_serves kept.toServes ?_ ?_
          · refine (List.prefix_append _ _).trans (order.trans ?_)
            simp [step, held]
          · rw [answer]
            simp [step, held]

/-- The clock at which a master is told of an error. -/
theorem failed_step (error : run.shared.delay.oWbErr = true)
    (closed : run.shared.delay.oDlyCyc = false) (low : run.shared.delay.oDlyStb = false)
    (heard : Heard run.served run.taken run.back) (held : run.held clock = true) :
    Phase (run.step clock) := by
  obtain ⟨quiet, -, -, told⟩ := SharedBus.error_step error closed (run.busClock clock)
  have back : (run.step clock).back = run.back ++ [.err] := by simp [step, held, told]
  have served : (run.step clock).served = run.served := by
    have none : run.wb.due (run.wbClock clock) = none := due_eq_none_of_stb low
    simp [step, held, none]
  have taken : (run.step clock).taken = run.taken ++
      SharedBus.taken run.shared.arbiter.owner run.shared (run.busClock clock) := by
    simp [step, held]
  refine .ended quiet ?_ ?_
  · rw [back]
    simp
  · rw [back, served, taken]
    exact heard.grow

/-- What holds in every run. -/
structure Sound (run : BoardRun) : Prop where
  wb : run.wb.Kept
  strobe : run.shared.delay.oDlyStb = true → run.shared.delay.oDlyCyc = true
  phase : Phase run

theorem Sound.step (sound : Sound run) (legal : run.Legal clock) : Sound (run.step clock) := by
  obtain ⟨wb, strobe, phase⟩ := sound
  have wb' : (run.step clock).wb.Kept := by
    cases cyc : run.shared.delay.oDlyCyc with
    | true =>
        exact wb.step ⟨strobe, fun device _ => legal.answers device cyc, legal.apart⟩ cyc
    | false =>
        refine WbRun.kept_idle wb.memory cyc ?_
        cases stb : run.shared.delay.oDlyStb with
        | false => exact stb
        | true =>
            rw [strobe stb] at cyc
            cases cyc
  refine ⟨wb', cyc_of_stb, ?_⟩
  cases held : run.held clock with
  | false => exact fresh_of_low held
  | true =>
      cases phase with
      | fresh quiet taken served back => exact fresh_step quiet taken served back held
      | running error cyc cycle served => exact running_step wb error cyc cycle served held
      | failed error closed low heard => exact failed_step error closed low heard held
      | ended quiet told heard =>
          rw [legal.leaves told] at held
          cases held

theorem sound_start (bus : WbBus) (clock : BoardClock) : Sound ((start bus).step clock) := by
  refine ⟨WbRun.kept_idle rfl rfl rfl, cyc_of_stb, ?_⟩
  cases held : (start bus).held clock with
  | false => exact fresh_of_low held
  | true => exact fresh_step SharedBus.initial_quiet rfl rfl rfl held

theorem Reaches.sound (reaches : Reaches run) : Sound run := by
  induction reaches with
  | start bus clock => exact sound_start bus clock
  | step _ legal ih => exact ih.step legal

/-- At every clock of every run, whichever master has the bus. -/
theorem masters_hear (reaches : Reaches run) : Hears run := by
  obtain ⟨wb, -, phase⟩ := reaches.sound
  refine ⟨?_, wb.memory⟩
  cases phase with
  | fresh _ taken served back =>
      rw [served, back]
      exact heard_nil run.taken
  | running error cyc cycle served =>
      rw [served]
      cases cycle with
      | failed other => rw [error] at other; cases other
      | running _ _ _ balance answer =>
          refine heard_of_serves wb.toServes ?_ ?_
          · rw [balance]
            exact List.prefix_append _ _
          · rw [answer]
            exact List.prefix_append _ _
  | failed _ _ _ heard => exact heard
  | ended _ _ heard => exact heard

instance decidableLegal (run : BoardRun) (clock : BoardClock) : Decidable (run.Legal clock) :=
  decidable_of_iff
    ((∀ device, run.shared.delay.oDlyCyc = true → (clock.devices device).ack = true →
        device ∈ run.wb.pending.map fun due => due.device.port) ∧
      (∀ device, run.wb.bus.accepts (run.wbClock clock) = some device →
        ∀ due ∈ run.wb.left (run.wbClock clock), due.device.port = device.port) ∧
      (.err ∈ run.back → run.held clock = false))
    ⟨fun ⟨answers, apart, leaves⟩ => ⟨answers, apart, leaves⟩,
      fun legal => ⟨legal.answers, legal.apart, legal.leaves⟩⟩

theorem reaches_clocked {clocks : List BoardClock} (reaches : Reaches run)
    (lawful : Lawful BoardRun.step Legal run clocks) :
    Reaches (clocked BoardRun.step run clocks) :=
  lawful_invariant (fun _ _ => .step) reaches lawful

/-- The CPU drives the bus, and no peripheral outside says anything. -/
def driving (cyc stb we : Bool) (data : BitVec 32) : BoardClock :=
  ⟨⟨cyc, stb, ⟨we, 0x280000, data, 15⟩⟩, ⟨false, false, ⟨false, 0, 0, 0⟩⟩,
    fun _ => ⟨false, false, 0⟩, fun _ => 0⟩

/-- It writes a word of the block RAM and reads it at the next clock. -/
def readBack : List BoardClock :=
  [driving true true true 0xc0ffee, driving true true false 0] ++
    List.replicate 6 (driving true false false 0)

/-- The bus at power-up. -/
def powered : BoardRun :=
  (start ⟨⟨false, 0, 0, false, 0, false⟩,
    ⟨fun _ => 0, false, false, ⟨false, 0, 0, 0⟩, false, 0⟩⟩).step (driving false false false 0)

theorem reaches_powered : Reaches powered := .start _ _

theorem word_heard :
    (clocked step powered readBack).back = [.ack 0, .ack 0xc0ffee] ∧
      Hears (clocked step powered readBack) :=
  ⟨by decide +kernel, masters_hear (reaches_clocked reaches_powered (by decide +kernel))⟩

end BoardRun

end ZipVersa.Board
