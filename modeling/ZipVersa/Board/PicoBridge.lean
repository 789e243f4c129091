import Mathlib.Tactic.Common

/-! The bus logic of `wb_picorv32` between the native memory interface of the
core and Wishbone, `OPT_ENDIANSWAP` being zero. Interrupts and the debugging
registers play no part in it. -/

set_option autoImplicit false

namespace ZipVersa.Board

/-- `mem_addr`, `mem_wdata`, `mem_wstrb`. -/
structure MemRequest where
  addr : BitVec 32
  wdata : BitVec 32
  wstrb : BitVec 4
  deriving DecidableEq, Repr

/-- `o_wb_addr`, `o_wb_data`, `o_wb_sel`, `o_wb_we`. -/
structure BusRequest where
  addr : BitVec 30
  data : BitVec 32
  sel : BitVec 4
  we : Bool
  deriving DecidableEq, Repr

def busRequest (request : MemRequest) : BusRequest :=
  ⟨request.addr.extractLsb' 2 30, request.wdata, request.wstrb, request.wstrb != 0⟩

structure PicoBridge where
  lastValid : Bool
  cyc : Bool
  stb : Bool
  request : BusRequest
  deriving DecidableEq, Repr

/-- What core and bus do at one clock. -/
structure PicoClock where
  memValid : Bool
  request : MemRequest
  stall : Bool
  ack : Bool
  err : Bool
  deriving DecidableEq, Repr

def PicoClock.memReady (clock : PicoClock) : Bool := clock.ack || clock.err

namespace PicoBridge

/-- One rising edge. -/
def step (bridge : PicoBridge) (rReset : Bool) (clock : PicoClock) : PicoBridge where
  lastValid := if rReset then false else clock.memValid && !clock.ack
  cyc :=
    if rReset then false
    else if bridge.cyc then !(clock.ack || clock.err)
    else clock.memValid && !bridge.lastValid
  stb :=
    if rReset then false
    else if bridge.cyc then bridge.stb && clock.stall
    else if clock.memValid && !bridge.lastValid then true
    else bridge.stb
  request := if !bridge.cyc then busRequest clock.request else bridge.request

/-- A request is accepted by the bus. -/
def issues (bridge : PicoBridge) (clock : PicoClock) : Bool :=
  bridge.cyc && bridge.stb && !clock.stall

end PicoBridge

/-! ### The bridge between a core and a bus -/

/-- The bridge, the request the core has to hold, whether the last clock had
`i_wb_err`, the answers the bus owes, and what has been issued and completed. -/
structure PicoRun where
  bridge : PicoBridge
  held : Option MemRequest
  erred : Bool
  owed : Nat
  issued : List BusRequest
  completed : List MemRequest
  deriving DecidableEq, Repr

namespace PicoRun

/-- Behind a clock with `r_reset` high; it resets the core as well. -/
def reset (bridge : PicoBridge) (clock : PicoClock) : PicoRun :=
  ⟨bridge.step true clock, none, false, 0, [], []⟩

def step (run : PicoRun) (clock : PicoClock) : PicoRun where
  bridge := run.bridge.step false clock
  held := if clock.memValid && !clock.memReady then some clock.request else none
  erred := clock.err
  owed :=
    run.owed + (if run.bridge.issues clock then 1 else 0) - (if clock.memReady then 1 else 0)
  issued := run.issued ++ if run.bridge.issues clock then [run.bridge.request] else []
  completed := run.completed ++ if clock.memValid && clock.memReady then [clock.request] else []

/-- The core holds a request until `mem_ready`; the bus gives one acknowledgement
or error for each request it has accepted, at the same clock or later. -/
structure Legal (run : PicoRun) (clock : PicoClock) : Prop where
  core : ∀ request, run.held = some request → clock.memValid = true ∧ clock.request = request
  bus : clock.memReady = true → run.owed + (if run.bridge.issues clock then 1 else 0) ≠ 0
  one : ¬ (clock.ack = true ∧ clock.err = true)

/-- No request directly behind a bus error. -/
def Calm (run : PicoRun) (clock : PicoClock) : Prop := run.erred = true → clock.memValid = false

/-- The runs out of reset at whose clocks `Allowed` holds. -/
inductive Reaches (Allowed : PicoRun → PicoClock → Prop) : PicoRun → Prop where
  | reset (bridge : PicoBridge) (clock : PicoClock) : Reaches Allowed (reset bridge clock)
  | step {run : PicoRun} {clock : PicoClock} :
      Reaches Allowed run → run.Legal clock → Allowed run clock → Reaches Allowed (run.step clock)

/-- The requests of the core are served at this clock: the one that is pending
is on the bus with its own address, data and strobes or will be there at the
next clock, all before it were issued once and completed once, and a `mem_ready`
meets a request. -/
structure Served (run : PicoRun) (clock : PicoClock) : Prop where
  recognised : ¬ (clock.memValid = true ∧ run.bridge.cyc = false ∧ run.bridge.lastValid = true)
  prompt : clock.memValid = true → run.bridge.cyc = false →
    (run.step clock).bridge.cyc = true ∧ (run.step clock).bridge.stb = true ∧
      (run.step clock).bridge.request = busRequest clock.request
  own : run.bridge.cyc = true →
    clock.memValid = true ∧ run.bridge.request = busRequest clock.request
  once : run.issued = run.completed.map busRequest ++
    if run.bridge.cyc && !run.bridge.stb then [busRequest clock.request] else []
  answered : clock.memReady = true → clock.memValid = true

/-! ### The invariant -/

/-- Nothing is pending, or the one request that is. -/
inductive Sound (run : PicoRun) : Prop where
  | idle : run.bridge.cyc = false → run.bridge.stb = false → run.held = none → run.owed = 0 →
      (run.bridge.lastValid = true → run.erred = true) →
      run.issued = run.completed.map busRequest → Sound run
  | offered (request : MemRequest) : run.bridge.cyc = true → run.bridge.stb = true →
      run.held = some request → run.owed = 0 → run.bridge.request = busRequest request →
      run.issued = run.completed.map busRequest → Sound run
  | accepted (request : MemRequest) : run.bridge.cyc = true → run.bridge.stb = false →
      run.held = some request → run.owed = 1 → run.bridge.request = busRequest request →
      run.issued = run.completed.map busRequest ++ [busRequest request] → Sound run

variable {run : PicoRun} {clock : PicoClock}

theorem answer_of_ready (ready : clock.memReady = true) : clock.ack = false → clock.err = true := by
  intro none
  simpa [PicoClock.memReady, none] using ready

/-- A request that is answered leaves nothing behind. -/
theorem Sound.answered (cyc : run.bridge.cyc = true) (valid : clock.memValid = true)
    (ready : clock.memReady = true) (taken : (run.bridge.stb && clock.stall) = false)
    (owed : (run.step clock).owed = 0)
    (issued : (run.step clock).issued = (run.step clock).completed.map busRequest) :
    (run.step clock).Sound := by
  have answer := answer_of_ready ready
  refine .idle ?_ ?_ ?_ owed ?_ issued
  · simpa [PicoRun.step, PicoBridge.step, cyc] using answer
  · simpa [PicoRun.step, PicoBridge.step, cyc] using taken
  · simp [PicoRun.step, ready]
  · intro last
    refine answer ?_
    simpa [PicoRun.step, PicoBridge.step, valid] using last

theorem Sound.step (sound : run.Sound) (legal : run.Legal clock) (calm : run.Calm clock) :
    (run.step clock).Sound := by
  cases sound with
  | idle cyc stb held owed error issued =>
      have silent : clock.memReady = false := by
        by_contra ready
        exact legal.bus (by simpa using ready) (by simp [owed, PicoBridge.issues, cyc])
      have answers : clock.ack = false ∧ clock.err = false := by
        simpa [PicoClock.memReady] using silent
      cases valid : clock.memValid with
      | false =>
          refine .idle ?_ ?_ ?_ ?_ ?_ ?_ <;>
            simp [PicoRun.step, PicoBridge.step, PicoBridge.issues, cyc, stb, owed, valid, silent,
              issued]
      | true =>
          have fresh : run.bridge.lastValid = false := by
            by_contra last
            have := calm (error (by simpa using last))
            rw [valid] at this
            cases this
          refine .offered clock.request ?_ ?_ ?_ ?_ ?_ ?_ <;>
            simp [PicoRun.step, PicoBridge.step, PicoBridge.issues, cyc, owed, valid, silent, fresh,
              issued]
  | offered request cyc stb held owed own issued =>
      obtain ⟨valid, rfl⟩ := legal.core request held
      cases stall : clock.stall with
      | true =>
          have silent : clock.memReady = false := by
            by_contra ready
            exact legal.bus (by simpa using ready) (by simp [owed, PicoBridge.issues, stall])
          have answers : clock.ack = false ∧ clock.err = false := by
            simpa [PicoClock.memReady] using silent
          refine .offered clock.request ?_ ?_ ?_ ?_ ?_ ?_ <;>
            simp [PicoRun.step, PicoBridge.step, PicoBridge.issues, cyc, stb, owed, own, valid, silent,
              answers, stall, issued]
      | false =>
          cases ready : clock.memReady with
          | true =>
              refine .answered cyc valid ready (by rw [stall, Bool.and_false]) ?_ ?_
              · simp [PicoRun.step, PicoBridge.issues, cyc, stb, stall, owed, ready]
              · simp [PicoRun.step, PicoBridge.issues, cyc, stb, stall, own, valid, ready, issued]
          | false =>
              have answers : clock.ack = false ∧ clock.err = false := by
                simpa [PicoClock.memReady] using ready
              refine .accepted clock.request ?_ ?_ ?_ ?_ ?_ ?_ <;>
                simp [PicoRun.step, PicoBridge.step, PicoBridge.issues, cyc, stb, owed, own, valid,
                  ready, answers, stall, issued]
  | accepted request cyc stb held owed own issued =>
      obtain ⟨valid, rfl⟩ := legal.core request held
      cases ready : clock.memReady with
      | true =>
          refine .answered cyc valid ready (by rw [stb, Bool.false_and]) ?_ ?_
          · simp [PicoRun.step, PicoBridge.issues, stb, owed, ready]
          · simp [PicoRun.step, PicoBridge.issues, stb, valid, ready, issued]
      | false =>
          have answers : clock.ack = false ∧ clock.err = false := by
            simpa [PicoClock.memReady] using ready
          refine .accepted clock.request ?_ ?_ ?_ ?_ ?_ ?_ <;>
            simp [PicoRun.step, PicoBridge.step, PicoBridge.issues, cyc, stb, owed, own, valid, ready,
              answers, issued]

theorem Sound.reached (reaches : Reaches Calm run) : run.Sound := by
  induction reaches with
  | reset bridge clock =>
      exact .idle (by simp [reset, PicoBridge.step]) (by simp [reset, PicoBridge.step]) rfl rfl
        (by simp [reset, PicoBridge.step]) rfl
  | step _ legal calm ih => exact ih.step legal calm

theorem Sound.served (sound : run.Sound) (legal : run.Legal clock) (calm : run.Calm clock) :
    run.Served clock := by
  cases sound with
  | idle cyc stb held owed error issued =>
      have fresh : clock.memValid = true → run.bridge.lastValid = false := by
        intro valid
        by_contra last
        have := calm (error (by simpa using last))
        rw [valid] at this
        cases this
      exact {
        recognised := fun ⟨valid, _, last⟩ => by rw [fresh valid] at last; cases last
        prompt := fun valid _ => by simp [PicoRun.step, PicoBridge.step, cyc, valid, fresh valid]
        own := fun busy => by rw [cyc] at busy; cases busy
        once := by simp [cyc, issued]
        answered := fun ready => absurd (by simp [owed, PicoBridge.issues, cyc]) (legal.bus ready) }
  | offered request cyc stb held owed own issued =>
      obtain ⟨valid, rfl⟩ := legal.core request held
      exact {
        recognised := fun ⟨_, down, _⟩ => by rw [cyc] at down; cases down
        prompt := fun _ down => by rw [cyc] at down; cases down
        own := fun _ => ⟨valid, own⟩
        once := by simp [stb, issued]
        answered := fun _ => valid }
  | accepted request cyc stb held owed own issued =>
      obtain ⟨valid, rfl⟩ := legal.core request held
      exact {
        recognised := fun ⟨_, down, _⟩ => by rw [cyc] at down; cases down
        prompt := fun _ down => by rw [cyc] at down; cases down
        own := fun _ => ⟨valid, own⟩
        once := by simp [cyc, stb, issued]
        answered := fun _ => valid }

end PicoRun

open PicoRun

/-- As long as no request comes directly behind a bus error, every request of
the core is served. -/
theorem pico_served {run : PicoRun} (reaches : Reaches Calm run) {clock : PicoClock}
    (legal : run.Legal clock) (calm : run.Calm clock) : run.Served clock :=
  (Sound.reached reaches).served legal calm

/-- A word is fetched and acknowledged, and the next fetch comes without a gap. -/
theorem fetches_served :
    let fetch (addr : BitVec 32) (ack : Bool) : PicoClock :=
      ⟨true, ⟨addr, 0, 0⟩, false, ack, false⟩
    let start := PicoRun.reset ⟨false, false, false, ⟨0, 0, 0, false⟩⟩ (fetch 0 false)
    (((start.step (fetch 4 false)).step (fetch 4 false)).step (fetch 4 true)).Served
      (fetch 8 false) := by
  have legal (run : PicoRun) (addr : BitVec 32) (ack : Bool)
      (held : ∀ request, run.held = some request → request = ⟨addr, 0, 0⟩)
      (answers : ack = true → run.owed ≠ 0) :
      run.Legal ⟨true, ⟨addr, 0, 0⟩, false, ack, false⟩ := by
    refine ⟨fun request same => ⟨rfl, (held request same).symm⟩, fun ready => ?_, by simp⟩
    have := answers (by simpa [PicoClock.memReady] using ready)
    omega
  refine pico_served (.step (.step (.step (.reset _ _) ?_ ?_) ?_ ?_) ?_ ?_) ?_ ?_
  · exact legal _ 4 false nofun nofun
  · nofun
  · exact legal _ 4 false (by decide) nofun
  · nofun
  · exact legal _ 4 true (by decide) (by decide)
  · nofun
  · exact legal _ 8 false nofun nofun
  · nofun

/-- A request that is held, not on the bus and taken for an old one. -/
structure PicoRun.Stuck (run : PicoRun) (clock : PicoClock) : Prop where
  valid : clock.memValid = true
  cyc : run.bridge.cyc = false
  last : run.bridge.lastValid = true
  owed : run.owed = 0

/-- It is never issued: the core holds it, and no answer will come. -/
theorem PicoRun.Stuck.step {run : PicoRun} {clock later : PicoClock} (stuck : run.Stuck clock)
    (legal : run.Legal clock) (next : (run.step clock).Legal later) :
    (run.step clock).Stuck later ∧ (run.step clock).issued = run.issued := by
  have silent : clock.memReady = false := by
    by_contra ready
    exact legal.bus (by simpa using ready) (by simp [stuck.owed, PicoBridge.issues, stuck.cyc])
  have answers : clock.ack = false ∧ clock.err = false := by
    simpa [PicoClock.memReady] using silent
  have held : (run.step clock).held = some clock.request := by
    simp [PicoRun.step, stuck.valid, silent]
  refine ⟨⟨(next.core _ held).1, ?_, ?_, ?_⟩, ?_⟩
  · simp [PicoRun.step, PicoBridge.step, stuck.cyc, stuck.last]
  · simp [PicoRun.step, PicoBridge.step, stuck.valid, answers]
  · simp [PicoRun.step, PicoBridge.issues, stuck.cyc, stuck.owed, silent]
  · simp [PicoRun.step, PicoBridge.issues, stuck.cyc]

/-- A fetch that crosses a word: the first half ends in a bus error, the second
half is requested without a gap. It is not recognised. -/
theorem fetch_behind_error_lost :
    ∃ run clock, Reaches (fun _ _ => True) run ∧ run.Legal clock ∧ run.Stuck clock ∧
      ¬ run.Served clock := by
  let fetch (addr : BitVec 32) (err : Bool) : PicoClock := ⟨true, ⟨addr, 0, 0⟩, false, false, err⟩
  let start := PicoRun.reset ⟨false, false, false, ⟨0, 0, 0, false⟩⟩ (fetch 0 false)
  let first := start.step (fetch 4 false)
  let second := first.step (fetch 4 false)
  let third := second.step (fetch 4 true)
  have legal (run : PicoRun) (addr : BitVec 32) (err : Bool)
      (held : ∀ request, run.held = some request → request = ⟨addr, 0, 0⟩)
      (answers : err = true → run.owed ≠ 0) : run.Legal (fetch addr err) := by
    refine ⟨fun request same => ⟨rfl, (held request same).symm⟩, fun ready => ?_, by simp [fetch]⟩
    have := answers (by simpa [PicoClock.memReady, fetch] using ready)
    omega
  have reaches : Reaches (fun _ _ => True) third := by
    refine .step (.step (.step (.reset _ _) ?_ trivial) ?_ trivial) ?_ trivial
    · exact legal start 4 false nofun nofun
    · exact legal first 4 false (by decide) nofun
    · exact legal second 4 true (by decide) (by decide)
  refine ⟨third, fetch 8 false, reaches, legal third 8 false nofun nofun, ?_, ?_⟩
  · exact ⟨rfl, by decide, by decide, by decide⟩
  · intro served
    exact served.recognised ⟨rfl, by decide, by decide⟩

end ZipVersa.Board
