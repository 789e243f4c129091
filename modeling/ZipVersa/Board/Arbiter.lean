import ZipVersa.Lib.Clocked

/-! Two masters on one bus, as `main.v` connects them: `wbpriarbiter`, and
`busdelay` with `DELAY_STALL` between it and the slaves. A bus cycle lasts as
long as the owner's `cyc`; the slaves see it a clock later. -/

set_option autoImplicit false

namespace ZipVersa.Board

open Lib

variable {aw dw : Nat}

/-- The wires that go with a strobe. -/
structure WbRequest (aw dw : Nat) where
  we : Bool
  addr : BitVec aw
  data : BitVec dw
  sel : BitVec (dw / 8)
  deriving DecidableEq, Repr

/-- What a master drives. -/
structure Master (aw dw : Nat) where
  cyc : Bool
  stb : Bool
  request : WbRequest aw dw
  deriving DecidableEq, Repr

/-- What the slaves drive. -/
structure Slaves (dw : Nat) where
  stall : Bool
  ack : Bool
  err : Bool
  data : BitVec dw
  deriving DecidableEq, Repr

inductive Side where
  | a
  | b
  deriving DecidableEq, Repr

inductive Answer (dw : Nat) where
  | ack (data : BitVec dw)
  | err
  deriving DecidableEq, Repr

structure WbPriArbiter where
  rAOwner : Bool
  deriving DecidableEq, Repr

namespace WbPriArbiter

def step (arbiter : WbPriArbiter) (a b : Master aw dw) : WbPriArbiter where
  rAOwner :=
    if !b.cyc then true
    else if b.cyc && b.stb && !a.cyc then false
    else arbiter.rAOwner

/-- `o_cyc`, `o_stb` and the rest, without `OPT_ZERO_ON_IDLE`. -/
def out (arbiter : WbPriArbiter) (a b : Master aw dw) : Master aw dw :=
  if arbiter.rAOwner then a else b

/-- `o_a_stall` and `o_b_stall`. -/
def stall (arbiter : WbPriArbiter) (iStall : Bool) : Side → Bool
  | .a => if arbiter.rAOwner then iStall else true
  | .b => if !arbiter.rAOwner then iStall else true

/-- `o_a_ack` and `o_b_ack`, and `o_a_err` and `o_b_err`. -/
def pass (arbiter : WbPriArbiter) (line : Bool) : Side → Bool
  | .a => if arbiter.rAOwner then line else false
  | .b => if !arbiter.rAOwner then line else false

def owner (arbiter : WbPriArbiter) : Side := if arbiter.rAOwner then .a else .b

end WbPriArbiter

structure BusDelay (aw dw : Nat) where
  oDlyCyc : Bool
  oDlyStb : Bool
  oDly : WbRequest aw dw
  rStb : Bool
  r : WbRequest aw dw
  oWbAck : Bool
  oWbErr : Bool
  oWbData : BitVec dw
  deriving DecidableEq, Repr

namespace BusDelay

def oWbStall (delay : BusDelay aw dw) : Bool := delay.rStb

/-- One rising edge, with `DELAY_STALL`. -/
def step (delay : BusDelay aw dw) (iReset : Bool) (wb : Master aw dw) (dly : Slaves dw) :
    BusDelay aw dw :=
  let free := !dly.stall || !delay.oDlyStb
  let ended := !wb.cyc || dly.err && delay.oDlyCyc || delay.oWbErr
  let held := if free || !delay.rStb && !delay.oWbStall then wb.request else delay.r
  { oDlyCyc := wb.cyc && !iReset && !delay.oWbErr && (!dly.err || !delay.oDlyCyc)
    oDlyStb :=
      if iReset || ended then false
      else if free then (if delay.rStb then true else wb.stb)
      else delay.oDlyStb
    oDly := if free then (if delay.rStb then delay.r else wb.request) else delay.oDly
    rStb :=
      if iReset || ended then false
      else if free then false
      else if !delay.rStb && !delay.oWbStall then wb.stb
      else delay.rStb
    r := if iReset then { held with we := false } else held
    oWbAck :=
      if iReset || !wb.cyc || delay.oWbErr then false
      else dly.ack && delay.oDlyCyc && !dly.err
    oWbErr := if iReset || !wb.cyc then false else dly.err && delay.oDlyCyc
    oWbData := dly.data }

end BusDelay

/-- The inputs at one clock. -/
structure BusClock (aw dw : Nat) where
  iReset : Bool
  a : Master aw dw
  b : Master aw dw
  slaves : Slaves dw
  deriving DecidableEq, Repr

def BusClock.master (clock : BusClock aw dw) : Side → Master aw dw
  | .a => clock.a
  | .b => clock.b

/-- `bus_arbiter` and `wbu_delayi_delay`. -/
structure SharedBus (aw dw : Nat) where
  arbiter : WbPriArbiter
  delay : BusDelay aw dw
  deriving DecidableEq, Repr

namespace SharedBus

def initial : SharedBus aw dw where
  arbiter := ⟨true⟩
  delay := ⟨false, false, ⟨false, 0, 0, 0⟩, false, ⟨false, 0, 0, 0⟩, false, false, 0⟩

/-- What the owner drives. -/
def driven (bus : SharedBus aw dw) (clock : BusClock aw dw) : Master aw dw :=
  bus.arbiter.out clock.a clock.b

def step (bus : SharedBus aw dw) (clock : BusClock aw dw) : SharedBus aw dw where
  arbiter := bus.arbiter.step clock.a clock.b
  delay := bus.delay.step clock.iReset (bus.driven clock) clock.slaves

/-- A request accepted from a master. -/
def taken (side : Side) (bus : SharedBus aw dw) (clock : BusClock aw dw) :
    List (WbRequest aw dw) :=
  if (clock.master side).cyc && (clock.master side).stb &&
      !bus.arbiter.stall bus.delay.oWbStall side then [(clock.master side).request]
  else []

/-- A request the slaves accept. -/
def reaches (bus : SharedBus aw dw) (clock : BusClock aw dw) : List (WbRequest aw dw) :=
  if bus.delay.oDlyCyc && bus.delay.oDlyStb && !clock.slaves.stall then [bus.delay.oDly] else []

/-- What the slaves answer, in a cycle of theirs. -/
def answers (bus : SharedBus aw dw) (clock : BusClock aw dw) : List (Answer dw) :=
  if !bus.delay.oDlyCyc then []
  else if clock.slaves.err then [.err]
  else if clock.slaves.ack then [.ack clock.slaves.data]
  else []

/-- What a master is answered. -/
def returned (side : Side) (bus : SharedBus aw dw) (_ : BusClock aw dw) : List (Answer dw) :=
  if bus.arbiter.pass bus.delay.oWbErr side then [.err]
  else if bus.arbiter.pass bus.delay.oWbAck side then [.ack bus.delay.oWbData]
  else []

/-- The registers of `busdelay` between two bus cycles. -/
structure Quiet (bus : SharedBus aw dw) : Prop where
  cyc : bus.delay.oDlyCyc = false
  stb : bus.delay.oDlyStb = false
  held : bus.delay.rStb = false
  ack : bus.delay.oWbAck = false
  err : bus.delay.oWbErr = false

variable {bus : SharedBus aw dw} {clock : BusClock aw dw}

theorem initial_quiet : (initial : SharedBus aw dw).Quiet := ⟨rfl, rfl, rfl, rfl, rfl⟩

/-- A clock without `cyc`, or in reset, leaves nothing behind. -/
theorem quiet_after (idle : (bus.driven clock).cyc = false ∨ clock.iReset = true) :
    (bus.step clock).Quiet := by
  rcases idle with low | reset
  · constructor <;> simp [step, BusDelay.step, low]
  · constructor <;> simp [step, BusDelay.step, reset]

theorem driven_of_owner (bus : SharedBus aw dw) (clock : BusClock aw dw) :
    bus.driven clock = clock.master bus.arbiter.owner := by
  unfold driven WbPriArbiter.out WbPriArbiter.owner
  cases bus.arbiter.rAOwner <;> rfl

/-- Nobody takes the bus from a master that has it. -/
theorem owner_step (held : (bus.driven clock).cyc = true) :
    (bus.step clock).arbiter.owner = bus.arbiter.owner := by
  unfold driven WbPriArbiter.out at held
  unfold step WbPriArbiter.step WbPriArbiter.owner
  cases owner : bus.arbiter.rAOwner with
  | false =>
      rw [owner] at held
      have cycle : clock.b.cyc = true := held
      simp [cycle]
  | true =>
      rw [owner] at held
      have cycle : clock.a.cyc = true := held
      simp [cycle]

/-- The other master is stalled and hears nothing. -/
theorem other_silent {side : Side} (other : side ≠ bus.arbiter.owner) :
    taken side bus clock = [] ∧ returned side bus clock = [] := by
  unfold WbPriArbiter.owner at other
  unfold taken returned WbPriArbiter.stall WbPriArbiter.pass
  cases owner : bus.arbiter.rAOwner <;> cases side <;> simp_all

theorem taken_owner (bus : SharedBus aw dw) (clock : BusClock aw dw) :
    taken bus.arbiter.owner bus clock =
      if (bus.driven clock).cyc && (bus.driven clock).stb && !bus.delay.rStb then
        [(bus.driven clock).request]
      else [] := by
  unfold taken driven WbPriArbiter.out WbPriArbiter.stall WbPriArbiter.owner BusDelay.oWbStall
  cases bus.arbiter.rAOwner <;> rfl

theorem returned_owner (bus : SharedBus aw dw) (clock : BusClock aw dw) :
    returned bus.arbiter.owner bus clock =
      if bus.delay.oWbErr then [.err]
      else if bus.delay.oWbAck then [.ack bus.delay.oWbData]
      else [] := by
  unfold returned WbPriArbiter.pass WbPriArbiter.owner
  cases bus.arbiter.rAOwner <;> rfl

end SharedBus

end ZipVersa.Board
