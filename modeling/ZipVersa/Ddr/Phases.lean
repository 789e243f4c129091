import ZipVersa.Ddr.Schedule

/-! The controller from one refresh to the next: the pipes serve the bus, they
are emptied once `pre_refresh_stall` is up, and they rest while the maintenance
commands are given. -/

set_option autoImplicit false

namespace ZipVersa.Ddr

open Lib

/-! ### The maintenance commands -/

/-- What the scripts may put in slot A. -/
def DdrOp.upkeep : DdrOp → Bool
  | .activate => false
  | .write => false
  | .read => false
  | _ => true

/-- All that slot A may get to hold. -/
structure Upkeep (ddr : WbDdr) : Prop where
  resetOp : ddr.script.cmdOp.upkeep = true
  resetInstruction : ddr.script.instruction.op.upkeep = true
  refreshOp : ddr.refresh.cmdOp.upkeep = true
  refreshInstruction : ddr.refresh.instruction.op.upkeep = true
  maintenanceOp : ddr.maintenanceOp.upkeep = true

theorem reset_upkeep (address : BitVec 4) : (getResetInstruction address).op.upkeep = true := by
  revert address
  decide

theorem refresh_upkeep (refaddr : BitVec 3) : (getRefreshInstruction refaddr).op.upkeep = true := by
  revert refaddr
  decide

variable {ddr : WbDdr} {clock : DdrClock} {chip : Dram.Chip Bank Row (BitVec 10)}

theorem Upkeep.step (upkeep : Upkeep ddr) : Upkeep (ddr.step clock) := by
  obtain ⟨resetOp, resetInstruction, refreshOp, refreshInstruction, maintenanceOp⟩ := upkeep
  have script := reset_upkeep ddr.script.address
  have refresh := refresh_upkeep ddr.refresh.addr
  have noop : DdrOp.noop.upkeep = true := rfl
  have initial : initialResetInstruction.op.upkeep = true := rfl
  have begun : Refresh.initial.cmdOp.upkeep = true ∧
      Refresh.initial.instruction.op.upkeep = true := ⟨rfl, rfl⟩
  constructor <;> simp only [WbDdr.step, Reset.step, Refresh.step] <;> grind

theorem upkeep_waiting {op : DdrOp} (upkeep : op.upkeep = true) (csN : Bool) (arg : BitVec 17) :
    (chip.apply (DdrCmd.command ⟨csN, op, arg⟩)).waiting = chip.waiting := by
  cases op <;> simp_all [DdrOp.upkeep, DdrCmd.command, Dram.Chip.apply]
  split_ifs <;> rfl

theorem upkeep_access {op : DdrOp} (upkeep : op.upkeep = true) (csN : Bool) (arg : BitVec 17) :
    (DdrCmd.command ⟨csN, op, arg⟩).isAccess = false := by
  cases op <;> simp_all [DdrOp.upkeep, DdrCmd.command, Dram.Command.isAccess]
  split_ifs <;> rfl

/-- With all banks closed any of them may come, and they stay closed. -/
theorem upkeep_closed {op : DdrOp} (upkeep : op.upkeep = true) (csN : Bool) (arg : BitVec 17)
    (rows : chip.rows = fun _ => none) :
    chip.Allows (DdrCmd.command ⟨csN, op, arg⟩) ∧
      (chip.apply (DdrCmd.command ⟨csN, op, arg⟩)).rows = fun _ => none := by
  cases op <;> simp_all [DdrOp.upkeep, DdrCmd.command, Dram.Chip.apply, Dram.Chip.Allows]
  split_ifs <;> simp

/-! ### The phases -/

/-- Neither pipe has anything to do. -/
structure Resting (ddr : WbDdr) : Prop where
  rPending : ddr.rPending = false
  cmdPipe0 : ddr.cmdPipe0 = false
  cmdPipe1 : ddr.cmdPipe1 = false
  cmdPipe2 : ddr.cmdPipe2 = false
  nxtPipe0 : ddr.nxtPipe0 = false
  nxtPipe1 : ddr.nxtPipe1 = false
  bankStatus : ∀ bank, ddr.bankStatus bank = false

/-- `i_wb_cyc` falls within so many clocks, or the run is over before. -/
def Broken (count : Nat) (clocks : List DdrClock) : Prop :=
  ¬(count ≤ clocks.length ∧ ∀ clock ∈ clocks.take count, clock.drops = false)

theorem broken_next {count : Nat} {rest : List DdrClock} (held : clock.drops = false)
    (broken : Broken (count + 1) (clock :: rest)) : Broken count rest := by
  rintro ⟨long, all⟩
  refine broken ⟨Nat.succ_le_succ long, ?_⟩
  rw [List.take_succ_cons]
  exact List.forall_mem_cons.mpr ⟨held, all⟩

namespace WbDdr

/-- `need_refresh` is about to rise. -/
def takesOver (ddr : WbDdr) : Bool :=
  !ddr.script.override && ddr.refresh.ztimer && ddr.refresh.instruction.needRefresh &&
    !ddr.refresh.needRefresh

/-- And the request in `r` has its precharge and activation still to come. -/
def endangered (ddr : WbDdr) : Bool := ddr.takesOver && ddr.starts .precharge

/-- Clocks until the request in `r` moves on. -/
def waits (ddr : WbDdr) : Nat := if ddr.cmdPipe0 then 2 else if ddr.cmdPipe1 then 1 else 0

end WbDdr

/-- The clocks since `pre_refresh_stall` rose: the requests accepted before go
through the pipes, and all banks are closed with `maintenance_override`. -/
structure Drains (count : Nat) (ddr : WbDdr) : Prop where
  refresh : ddr.refresh = Refresh.takeover count
  maintenance : ddr.maintenanceOverride = decide (5 ≤ count)
  given : 5 ≤ count → ddr.maintenanceOp = (Refresh.takeover (count - 1)).cmdOp ∧
    ddr.maintenanceArg = (Refresh.takeover (count - 1)).cmdArg
  stalled : 1 ≤ count → ddr.wbStall = true
  ready : count ≤ 5 → Ready ddr
  waits : ddr.rPending = true → ddr.waits + count ≤ 3
  cmdPipe0 : ddr.cmdPipe0 = true → count ≤ 4
  cmdPipe1 : ddr.cmdPipe1 = true → count ≤ 5
  cmdPipe2 : ddr.cmdPipe2 = true → count ≤ 6
  nxtPipe0 : ddr.nxtPipe0 = true → count ≤ 4
  nxtPipe1 : ddr.nxtPipe1 = true → count ≤ 4
  closed : 6 ≤ count → ∀ bank, ddr.bankStatus bank = false

/-- Where the scripts are, with the pipes. -/
inductive Stage (ddr : WbDdr) : Prop where
  | resetting (override : ddr.script.override = true) (stalled : ddr.wbStall = true)
      (resting : Resting ddr)
  | leaving (override : ddr.script.override = false) (waits : ddr.refresh.Waits)
      (stalled : ddr.wbStall = true) (resting : Resting ddr)
  | serving (override : ddr.script.override = false) (waits : ddr.refresh.Waits)
      (maintenance : ddr.maintenanceOverride = false) (ready : Ready ddr)
  | taking (count : Nat) (within : count < 18) (override : ddr.script.override = false)
      (drains : Drains count ddr)

/-- What would come with the precharge of all banks is given up before. -/
structure Spared (count : Nat) (ddr : WbDdr) (rest : List DdrClock) : Prop where
  precharge : ddr.cmdPipe0 = true → count = 4 → Broken 3 rest
  activate : ddr.cmdPipe1 = true → count = 5 → Broken 2 rest
  access : ddr.cmdPipe2 = true → count = 6 → Broken 1 rest

/-- The stage with the banks of the chip, which have their rows up to the
precharge of all of them. -/
inductive Phase (ddr : WbDdr) (rows : Bank → Option Row) (rest : List DdrClock) : Prop where
  | resetting (override : ddr.script.override = true) (stalled : ddr.wbStall = true)
      (resting : Resting ddr) (closed : rows = fun _ => none)
  | leaving (override : ddr.script.override = false) (waits : ddr.refresh.Waits)
      (stalled : ddr.wbStall = true) (resting : Resting ddr) (closed : rows = fun _ => none)
  | serving (override : ddr.script.override = false) (waits : ddr.refresh.Waits)
      (maintenance : ddr.maintenanceOverride = false) (ready : Ready ddr)
      (opened : rows = ddr.opened)
  | taking (count : Nat) (within : count < 18) (override : ddr.script.override = false)
      (drains : Drains count ddr) (spared : Spared count ddr rest)
      (opened : count ≤ 5 → rows = ddr.opened) (closed : 7 ≤ count → rows = fun _ => none)

theorem Phase.stage {rows : Bank → Option Row} {rest : List DdrClock}
    (phase : Phase ddr rows rest) : Stage ddr := by
  cases phase with
  | resetting override stalled resting => exact .resetting override stalled resting
  | leaving override waits stalled resting => exact .leaving override waits stalled resting
  | serving override waits maintenance ready => exact .serving override waits maintenance ready
  | taking count within override drains => exact .taking count within override drains

/-! ### Resting -/

/-- Nothing but slot A is used. -/
theorem Resting.commands (resting : Resting ddr) (running : clock.reset = false) :
    (ddr.step clock).commands = (ddr.nextCmdA clock).commands := by
  obtain ⟨rPending, cmdPipe0, cmdPipe1, cmdPipe2, nxtPipe0, nxtPipe1, bankStatus⟩ := resting
  rw [commands_step, WbDdr.slots, WbDdr.cmdB_commands running, WbDdr.cmdC_commands running,
    WbDdr.cmdD_commands running]
  simp [cmdPipe0, cmdPipe1, cmdPipe2, nxtPipe0, nxtPipe1]

theorem Resting.allowed (resting : Resting ddr) (upkeep : Upkeep ddr)
    (running : clock.reset = false) (closed : chip.rows = fun _ => none) :
    chip.AllowsAll (ddr.step clock).commands ∧
      (chip.applyAll (ddr.step clock).commands).rows = fun _ => none := by
  rw [resting.commands running, WbDdr.cmdA_commands running]
  split_ifs
  · have kept := upkeep_closed upkeep.maintenanceOp false ddr.maintenanceArg closed
    exact ⟨⟨kept.1, trivial⟩, kept.2⟩
  · exact ⟨trivial, closed⟩

theorem Resting.step (resting : Resting ddr) (piped : Piped ddr) (stalled : ddr.wbStall = true) :
    Resting (ddr.step clock) := by
  obtain ⟨rPending, cmdPipe0, cmdPipe1, cmdPipe2, nxtPipe0, nxtPipe1, bankStatus⟩ := resting
  have moves : ddr.moves = true := by
    simp [piped.moves, piped.pipeStall, cmdPipe0, cmdPipe1]
  constructor <;> simp_all [WbDdr.step, WbDdr.accepts, WbDdr.starts, WbDdr.nextNxtPipe0,
    WbDdr.nextNxtPipe1, WbDdr.nextBankStatus]

theorem resting_reset (reset : clock.reset = true) : Resting (ddr.step clock) := by
  constructor <;> simp [WbDdr.step, DdrClock.drops, WbDdr.nextBankStatus, reset]

theorem initial_resting {r s : Request} {rNxt sNxt : Row × Bank} :
    Resting (.initial r s rNxt sNxt) :=
  ⟨rfl, rfl, rfl, rfl, rfl, rfl, fun _ => rfl⟩

/-! ### Draining -/

theorem waits_small : ddr.waits ≤ 2 := by
  unfold WbDdr.waits
  split_ifs <;> decide

/-- The request in `r` is one clock closer, and a new one comes only unstalled. -/
theorem waits_step (piped : Piped ddr) (stalled : ddr.wbStall = true)
    (pending : (ddr.step clock).rPending = true) :
    ddr.rPending = true ∧ (ddr.step clock).waits + 1 = ddr.waits := by
  have moves := piped.moves
  obtain ⟨single, -, pipeStall, -, dirStall, -, -, -⟩ := piped
  simp only [WbDdr.step, WbDdr.accepts, WbDdr.starts, WbDdr.waits] at pending ⊢
  grind

/-- A request on its way to `s` leaves `cmd_pipe` free. -/
theorem starts_waits {turn : Turn} (piped : Piped ddr) (starts : ddr.starts turn = true) :
    ddr.rPending = true ∧ ddr.waits = 0 := by
  obtain ⟨-, -, pipeStall, -, dirStall, -, -, -⟩ := piped
  simp only [WbDdr.starts, WbDdr.moves, WbDdr.waits] at starts ⊢
  grind

theorem cmdPipe0_step (started : (ddr.step clock).cmdPipe0 = true) :
    clock.drops = false ∧ ddr.starts .precharge = true := by
  simpa [WbDdr.step] using started

theorem cmdPipe1_step (started : (ddr.step clock).cmdPipe1 = true) :
    clock.drops = false ∧ (ddr.starts .activate = true ∨ ddr.cmdPipe0 = true) := by
  simp only [WbDdr.step] at started
  grind

theorem cmdPipe2_step (started : (ddr.step clock).cmdPipe2 = true) :
    clock.drops = false ∧ (ddr.starts .access = true ∨ ddr.cmdPipe1 = true) := by
  simp only [WbDdr.step] at started
  grind

theorem Drains.start (waits : ddr.refresh.Waits) (ready : Ready (ddr.step clock))
    (override : ddr.script.override = false) (running : clock.reset = false)
    (begins : ddr.refresh.step = Refresh.takeover 0) : Drains 0 (ddr.step clock) where
  refresh := by simp [WbDdr.step, override, begins]
  maintenance := by simp [WbDdr.step, running, override, waits.needRefresh]
  given := by intro late; contradiction
  stalled := by intro late; contradiction
  ready := fun _ => ready
  waits := fun _ => Nat.le_succ_of_le waits_small
  cmdPipe0 := fun _ => Nat.zero_le 4
  cmdPipe1 := fun _ => Nat.zero_le 5
  cmdPipe2 := fun _ => Nat.zero_le 6
  nxtPipe0 := fun _ => Nat.zero_le 4
  nxtPipe1 := fun _ => Nat.zero_le 4
  closed := by intro late; contradiction

theorem Drains.started {count : Nat} {turn : Turn} (drains : Drains count ddr)
    (piped : Piped ddr) (starts : ddr.starts turn = true) : count ≤ 3 := by
  obtain ⟨pending, moving⟩ := starts_waits piped starts
  have waits := drains.waits pending
  omega

theorem Drains.step {count : Nat} (drains : Drains count ddr) (piped : Piped ddr)
    (within : count < 18) (override : ddr.script.override = false)
    (running : clock.reset = false) : Drains (count + 1) (ddr.step clock) := by
  obtain ⟨preRefreshStall, needRefresh⟩ := Refresh.takeover_stalls within
  rw [← drains.refresh] at preRefreshStall needRefresh
  have started (turn : Turn) : ddr.starts turn = true → count ≤ 3 := drains.started piped
  constructor
  · simp [WbDdr.step, override, drains.refresh, Refresh.takeover]
  · simp [WbDdr.step, override, running, needRefresh]
  · intro late
    simp [WbDdr.step, override, running, drains.refresh]
  · intro _
    simp [WbDdr.step, preRefreshStall]
  · intro early
    refine (drains.ready (Nat.le_of_lt early)).step piped running ?_
    rw [drains.maintenance]
    exact decide_eq_false (Nat.not_le.mpr early)
  · intro pending
    cases count with
    | zero => exact Nat.succ_le_succ waits_small
    | succ count =>
        obtain ⟨before, closer⟩ := waits_step piped (drains.stalled (Nat.succ_pos count)) pending
        have waits := drains.waits before
        omega
  · intro begun
    exact Nat.succ_le_succ (started _ (cmdPipe0_step begun).2)
  · intro begun
    rcases (cmdPipe1_step begun).2 with starts | precharged
    · exact Nat.succ_le_succ (Nat.le_succ_of_le (started _ starts))
    · exact Nat.succ_le_succ (drains.cmdPipe0 precharged)
  · intro begun
    rcases (cmdPipe2_step begun).2 with starts | activated
    · exact Nat.succ_le_succ (Nat.le_trans (started _ starts) (by decide))
    · exact Nat.succ_le_succ (drains.cmdPipe1 activated)
  · simp only [WbDdr.step, needRefresh]
    grind
  · simp only [WbDdr.step, needRefresh]
    grind
  · intro late bank
    have maintenance : ddr.maintenanceOverride = true := by
      rw [drains.maintenance]
      exact decide_eq_true (Nat.le_of_succ_le_succ late)
    simp [WbDdr.step, WbDdr.nextBankStatus, maintenance]

theorem Drains.resting {count : Nat} (drains : Drains count ddr) (late : 7 ≤ count) :
    Resting ddr := by
  have never {limit : Nat} {busy : Bool} (small : limit ≤ 6) (early : busy = true → count ≤ limit) :
      busy = false := Bool.eq_false_iff.mpr fun now => by
    have := early now
    omega
  constructor
  · refine Bool.eq_false_iff.mpr fun pending => ?_
    have waits := drains.waits pending
    omega
  · exact never (by decide) drains.cmdPipe0
  · exact never (by decide) drains.cmdPipe1
  · exact never (Nat.le_refl 6) drains.cmdPipe2
  · exact never (by decide) drains.nxtPipe0
  · exact never (by decide) drains.nxtPipe1
  · exact drains.closed (Nat.le_of_succ_le late)

/-- The pipes leave this clock to the precharge of all banks. -/
theorem Drains.flush {rest : List DdrClock} (drains : Drains 6 ddr)
    (spared : Spared 6 ddr (clock :: rest)) (running : clock.reset = false) :
    (ddr.step clock).commands = [.prechargeAll] := by
  have late : (ddr.cmdPipe2 && clock.cyc) = false := by
    cases accessing : ddr.cmdPipe2 with
    | false => rfl
    | true =>
        cases cyc : clock.cyc with
        | false => rfl
        | true =>
            refine absurd ⟨?_, ?_⟩ (spared.access accessing rfl)
            · exact Nat.succ_pos rest.length
            · simp [DdrClock.drops, running, cyc]
  have idle {limit : Nat} {busy : Bool} (small : limit < 6) (early : busy = true → 6 ≤ limit) :
      busy = false := Bool.eq_false_iff.mpr fun now => absurd (early now) (Nat.not_le.mpr small)
  rw [commands_step, WbDdr.slots, WbDdr.cmdA_commands running, WbDdr.cmdB_commands running,
    WbDdr.cmdC_commands running, WbDdr.cmdD_commands running, late, drains.maintenance,
    (drains.given (by decide)).1, (drains.given (by decide)).2, idle (by decide) drains.cmdPipe0,
    idle (by decide) drains.cmdPipe1, idle (by decide) drains.nxtPipe0,
    idle (by decide) drains.nxtPipe1]
  rfl

theorem Spared.step {count : Nat} {rest : List DdrClock} (spared : Spared count ddr (clock :: rest))
    (drains : Drains count ddr) (piped : Piped ddr) (override : ddr.script.override = false)
    (calm : ddr.endangered = true → Broken 4 (clock :: rest)) :
    Spared (count + 1) (ddr.step clock) rest := by
  constructor
  · intro begun late
    obtain ⟨held, starts⟩ := cmdPipe0_step begun
    have third : count = 3 := Nat.succ.inj late
    subst third
    have takes : ddr.takesOver = true := by
      simp only [WbDdr.takesOver, override, drains.refresh]
      decide
    exact broken_next held (calm (by rw [WbDdr.endangered, takes, starts]; rfl))
  · intro begun late
    obtain ⟨held, starts⟩ := cmdPipe1_step begun
    rcases starts with starts | precharged
    · have early := drains.started piped starts
      omega
    · exact broken_next held (spared.precharge precharged (Nat.succ.inj late))
  · intro begun late
    obtain ⟨held, starts⟩ := cmdPipe2_step begun
    rcases starts with starts | activated
    · have early := drains.started piped starts
      omega
    · exact broken_next held (spared.activate activated (Nat.succ.inj late))

/-! ### One clock -/

theorem Phase.reset {rest : List DdrClock} (reset : clock.reset = true) :
    Phase (ddr.step clock) (fun _ => none) rest :=
  .resetting (by simp [WbDdr.step, Reset.step, reset]) (by simp [WbDdr.step, reset])
    (resting_reset reset) rfl

/-- The pipes keep the bank registers while they have the command bus. -/
theorem Ready.allowed (ready : Ready ddr) (piped : Piped ddr) (running : clock.reset = false)
    (free : ddr.maintenanceOverride = false) (opened : chip.rows = ddr.opened)
    (oldest : ddr.cmdPipe2 = true → ∃ rest, chip.waiting = ddr.s :: rest) :
    chip.AllowsAll (ddr.step clock).commands ∧
      (chip.applyAll (ddr.step clock).commands).rows = (ddr.step clock).opened := by
  have slots : (ddr.step clock).commands = ddr.slots clock := by
    rw [commands_step, WbDdr.cmdA_commands running, free]
    rfl
  rw [slots]
  exact ⟨slots_allowed piped ready running opened oldest, slots_rows piped running free opened⟩

theorem Drains.allowed (drains : Drains 5 ddr) (piped : Piped ddr)
    (running : clock.reset = false) (opened : chip.rows = ddr.opened)
    (oldest : ddr.cmdPipe2 = true → ∃ rest, chip.waiting = ddr.s :: rest) :
    chip.AllowsAll (ddr.step clock).commands := by
  have noop : ddr.maintenanceOp = .noop := (drains.given (Nat.le_refl 5)).1
  rw [commands_step, WbDdr.cmdA_commands running, drains.maintenance, noop]
  exact ⟨trivial, slots_allowed piped (drains.ready (Nat.le_refl 5)) running opened oldest⟩

theorem override_stays (running : clock.reset = false) (override : ddr.script.override = false) :
    (ddr.step clock).script.override = false ∧ (ddr.step clock).refresh = ddr.refresh.step := by
  constructor <;> simp [WbDdr.step, Reset.step, running, override]

/-- After the last line of the reset script. -/
theorem override_ends (override : ddr.script.override = true) :
    (ddr.step clock).refresh.Waits ∧ (ddr.step clock).wbStall = true := by
  constructor
  · simpa [WbDdr.step, override] using Refresh.initial_waits
  · simp [WbDdr.step, override]

theorem Resting.ready (resting : Resting ddr) : Ready ddr := by
  constructor <;> simp [resting.cmdPipe1, resting.cmdPipe2, resting.nxtPipe1]

theorem Resting.opened (resting : Resting ddr) : ddr.opened = fun _ => none := by
  funext bank
  rw [WbDdr.opened, resting.bankStatus bank]
  rfl

theorem Refresh.Waits.free (waits : ddr.refresh.Waits) (running : clock.reset = false)
    (override : ddr.script.override = false) : (ddr.step clock).maintenanceOverride = false := by
  simp [WbDdr.step, running, override, waits.needRefresh]

/-- The pipes have the command bus until the next refresh begins. -/
theorem Refresh.Waits.stage (waits : ddr.refresh.Waits) (ready : Ready (ddr.step clock))
    (running : clock.reset = false) (override : ddr.script.override = false) :
    Stage (ddr.step clock) := by
  obtain ⟨stays, refreshes⟩ := override_stays running override
  rcases waits.step with next | begins
  · exact .serving stays (by rwa [refreshes]) (waits.free running override) ready
  · exact .taking 0 (by decide) stays (.start waits ready override running begins)

theorem Stage.step (stage : Stage ddr) (piped : Piped ddr) : Stage (ddr.step clock) := by
  cases reset : clock.reset with
  | true =>
      exact .resetting (by simp [WbDdr.step, Reset.step, reset]) (by simp [WbDdr.step, reset])
        (resting_reset reset)
  | false =>
      cases stage with
      | resetting override stalled resting =>
          obtain ⟨waits, stays⟩ := @override_ends ddr clock override
          cases next : (ddr.step clock).script.override with
          | true => exact .resetting next stays (resting.step piped stalled)
          | false => exact .leaving next waits stays (resting.step piped stalled)
      | leaving override waits stalled resting =>
          exact waits.stage (resting.step piped stalled).ready reset override
      | serving override waits maintenance ready =>
          exact waits.stage (ready.step piped reset maintenance) reset override
      | taking count within override drains =>
          obtain ⟨stays, -⟩ := @override_stays ddr clock reset override
          have next : Drains (count + 1) (ddr.step clock) := drains.step piped within override reset
          rcases Nat.lt_or_ge (count + 1) 18 with more | reached
          · exact .taking (count + 1) more stays next
          · have ended : count + 1 = 18 := Nat.le_antisymm within reached
            refine .leaving stays ?_ (next.stalled (Nat.succ_pos count))
              (next.resting (Nat.le_trans (by decide) reached))
            rw [next.refresh, ended]
            exact Refresh.takeover_ends

/-- The same with the banks of the chip. -/
theorem Refresh.Waits.phase {rows : Bank → Option Row} {rest : List DdrClock}
    (waits : ddr.refresh.Waits) (ready : Ready (ddr.step clock)) (running : clock.reset = false)
    (override : ddr.script.override = false) (opened : rows = (ddr.step clock).opened) :
    Phase (ddr.step clock) rows rest := by
  obtain ⟨stays, refreshes⟩ := override_stays running override
  rcases waits.step with next | begins
  · exact .serving stays (by rwa [refreshes]) (waits.free running override) ready opened
  · refine .taking 0 (by decide) stays (.start waits ready override running begins) ?_
      (fun _ => opened) (fun late => by contradiction)
    constructor <;> exact fun _ late => by contradiction

theorem Phase.step {rest : List DdrClock} (phase : Phase ddr chip.rows (clock :: rest))
    (piped : Piped ddr) (upkeep : Upkeep ddr) (running : clock.reset = false)
    (calm : ddr.endangered = true → Broken 4 (clock :: rest))
    (oldest : ddr.cmdPipe2 = true → ∃ rest, chip.waiting = ddr.s :: rest) :
    chip.AllowsAll (ddr.step clock).commands ∧
      Phase (ddr.step clock) (chip.applyAll (ddr.step clock).commands).rows rest := by
  cases phase with
  | resetting override stalled resting closed =>
      obtain ⟨allowed, closed⟩ := resting.allowed upkeep running closed
      obtain ⟨waits, stays⟩ := @override_ends ddr clock override
      refine ⟨allowed, ?_⟩
      cases next : (ddr.step clock).script.override with
      | true => exact .resetting next stays (resting.step piped stalled) closed
      | false => exact .leaving next waits stays (resting.step piped stalled) closed
  | leaving override waits stalled resting closed =>
      obtain ⟨allowed, closed⟩ := resting.allowed upkeep running closed
      have rested : Resting (ddr.step clock) := resting.step piped stalled
      exact ⟨allowed, waits.phase rested.ready running override (closed.trans rested.opened.symm)⟩
  | serving override waits maintenance ready opened =>
      obtain ⟨allowed, opened⟩ := ready.allowed piped running maintenance opened oldest
      exact ⟨allowed, waits.phase (ready.step piped running maintenance) running override opened⟩
  | taking count within override drains spared opened closed =>
      have stays := (@override_stays ddr clock running override).1
      have next : Drains (count + 1) (ddr.step clock) := drains.step piped within override running
      have saved : Spared (count + 1) (ddr.step clock) rest :=
        spared.step drains piped override calm
      rcases (by omega : count < 5 ∨ count = 5 ∨ count = 6 ∨ 7 ≤ count) with
        early | last | flushes | quiet
      · have maintenance : ddr.maintenanceOverride = false := by
          rw [drains.maintenance]
          exact decide_eq_false (Nat.not_le.mpr early)
        obtain ⟨allowed, opened⟩ := (drains.ready (Nat.le_of_lt early)).allowed piped running
          maintenance (opened (Nat.le_of_lt early)) oldest
        exact ⟨allowed, .taking (count + 1) (by omega) stays next saved (fun _ => opened)
          (fun late => by omega)⟩
      · subst last
        exact ⟨drains.allowed piped running (opened (Nat.le_refl 5)) oldest,
          .taking 6 (by decide) stays next saved (fun late => by contradiction)
            (fun late => by contradiction)⟩
      · subst flushes
        rw [drains.flush spared running]
        exact ⟨⟨trivial, trivial⟩, .taking 7 (by decide) stays next saved
          (fun late => by contradiction) (fun _ => rfl)⟩
      · obtain ⟨allowed, closed⟩ := (drains.resting quiet).allowed upkeep running (closed quiet)
        refine ⟨allowed, ?_⟩
        rcases Nat.lt_or_ge (count + 1) 18 with more | reached
        · exact .taking (count + 1) more stays next saved (fun late => by omega)
            (fun _ => closed)
        · have ended : count + 1 = 18 := Nat.le_antisymm within reached
          refine .leaving stays ?_ (next.stalled (Nat.succ_pos count))
            (next.resting (Nat.le_succ_of_le quiet)) closed
          rw [next.refresh, ended]
          exact Refresh.takeover_ends

/-! ### A late precharge -/

/-- `need_refresh` rises four clocks after `pre_refresh_stall`. -/
theorem Stage.takesOver (stage : Stage ddr) (takes : ddr.takesOver = true) :
    ddr.script.override = false ∧ Drains 3 ddr := by
  have idle : ¬ddr.refresh.Waits := by
    intro waits
    rcases waits.line with ⟨-, line⟩ | ⟨-, line⟩ | ⟨-, line⟩ <;>
      simp [WbDdr.takesOver, line, Instruction.needRefresh, initialRefreshInstruction,
        getRefreshInstruction] at takes
  cases stage with
  | resetting override => simp [WbDdr.takesOver, override] at takes
  | leaving _ waits => exact absurd waits idle
  | serving _ waits => exact absurd waits idle
  | taking count within override drains =>
      have only : ∀ count : Fin 18, (Refresh.takeover count).ztimer &&
          !(Refresh.takeover count).needRefresh → count.val = 3 := by decide
      have third : count = 3 := by
        refine only ⟨count, within⟩ ?_
        simp only [WbDdr.takesOver, drains.refresh] at takes
        simp only [Bool.and_eq_true] at takes ⊢
        exact ⟨takes.1.1.2, takes.2⟩
      subst third
      exact ⟨override, drains⟩

/-- Requests wait in `r` only until `need_refresh` rises. -/
theorem Stage.pending (stage : Stage ddr) (pending : ddr.rPending = true) :
    ddr.script.override = false ∧ ddr.refresh.needRefresh = false := by
  cases stage with
  | resetting _ _ resting => exact absurd (resting.rPending.symm.trans pending) Bool.false_ne_true
  | leaving _ _ _ resting => exact absurd (resting.rPending.symm.trans pending) Bool.false_ne_true
  | serving override waits => exact ⟨override, waits.needRefresh⟩
  | taking count within override drains =>
      have early := drains.waits pending
      refine ⟨override, ?_⟩
      rw [drains.refresh, (Refresh.takeover_stalls within).2]
      exact decide_eq_false (by omega)

/-- Accesses come while the pipes have the bus, or soon after. -/
theorem Stage.accessing (stage : Stage ddr) (accesses : ddr.cmdPipe2 = true) :
    ddr.script.override = false ∧ ddr.refresh.Upto 6 ∧ (ddr.refresh.needRefresh = false →
      Ready ddr ∧ ddr.maintenanceOverride = false) := by
  cases stage with
  | resetting _ _ resting => exact absurd (resting.cmdPipe2.symm.trans accesses) Bool.false_ne_true
  | leaving _ _ _ resting => exact absurd (resting.cmdPipe2.symm.trans accesses) Bool.false_ne_true
  | serving override waits maintenance ready =>
      exact ⟨override, .inl waits, fun _ => ⟨ready, maintenance⟩⟩
  | taking count within override drains =>
      refine ⟨override, .inr ⟨count, drains.cmdPipe2 accesses, drains.refresh⟩, fun free => ?_⟩
      rw [drains.refresh, (Refresh.takeover_stalls within).2, decide_eq_false_iff_not] at free
      refine ⟨drains.ready (by omega), ?_⟩
      rw [drains.maintenance]
      exact decide_eq_false (by omega)

theorem Refresh.Waits.idle {script : Refresh} (waits : script.Waits) :
    script.step.needRefresh = false := by
  rcases waits.step with next | begins
  · exact next.needRefresh
  · rw [begins]
    rfl

/-- With `need_refresh` up the script was a line before on the clock before. -/
theorem Stage.back {count : Nat} (stage : Stage ddr) (needs : 3 ≤ count) (within : count < 17)
    (override : (ddr.step clock).script.override = false)
    (refresh : (ddr.step clock).refresh = Refresh.takeover (count + 1)) :
    clock.reset = false ∧ ddr.script.override = false ∧ Drains count ddr := by
  have running : clock.reset = false := by
    cases reset : clock.reset with
    | false => rfl
    | true => simp [WbDdr.step, Reset.step, reset] at override
  have needRefresh : (ddr.step clock).refresh.needRefresh = true := by
    rw [refresh, (Refresh.takeover_stalls (Nat.succ_lt_succ within)).2]
    exact decide_eq_true (Nat.succ_le_succ needs)
  have idle (before : ddr.script.override = false) (waits : ddr.refresh.Waits) : False := by
    rw [(override_stays running before).2, waits.idle] at needRefresh
    cases needRefresh
  cases stage with
  | resetting before =>
      simp [WbDdr.step, before, Refresh.initial] at needRefresh
  | leaving before waits => exact (idle before waits).elim
  | serving before waits => exact (idle before waits).elim
  | taking earlier early before drains =>
      rw [(override_stays running before).2, drains.refresh] at refresh
      have same := Refresh.takeover_injective early (Nat.lt_succ_of_lt within) refresh
      subst same
      exact ⟨running, before, drains⟩

theorem moves_on (piped : Piped ddr) (held : clock.drops = false) :
    (ddr.cmdPipe0 = true → (ddr.step clock).cmdPipe1 = true) ∧
      (ddr.cmdPipe1 = true → (ddr.step clock).cmdPipe2 = true) := by
  constructor <;> intro busy <;> simp [WbDdr.step, WbDdr.moves, piped.pipeStall, held, busy]

/-- The access then comes with the precharge of all banks. -/
theorem late_commands (piped : Piped ddr) (held : clock.drops = false)
    (before : ddr.refresh = Refresh.takeover 5) (override : ddr.script.override = false)
    (running : clock.reset = false) {last : DdrClock} (kept : last.drops = false)
    (stepped : Piped (ddr.step clock)) (activated : ddr.cmdPipe1 = true) :
    ((ddr.step clock).step last).commands =
      [.prechargeAll, (ddr.step clock).s.command] := by
  have script : ddr.refresh.cmdOp = .precharge ∧ ddr.refresh.cmdArg = 0x400 ∧
      ddr.refresh.needRefresh = true := by
    rw [before]
    decide
  obtain ⟨cmdOp, cmdArg, needRefresh⟩ := script
  have maintenance : (ddr.step clock).maintenanceOverride = true := by
    simp [WbDdr.step, needRefresh]
  have op : (ddr.step clock).maintenanceOp = .precharge := by
    simp [WbDdr.step, running, override, cmdOp]
  have arg : (ddr.step clock).maintenanceArg = 0x400 := by
    simp [WbDdr.step, running, override, cmdArg]
  have nxt : (ddr.step clock).nxtPipe0 = false ∧ (ddr.step clock).nxtPipe1 = false := by
    simp [WbDdr.step, needRefresh]
  have access := (moves_on piped held).2 activated
  obtain ⟨single, -⟩ := stepped
  obtain ⟨reset, cyc⟩ := drops_held kept
  rw [commands_step, WbDdr.slots, WbDdr.cmdA_commands reset, WbDdr.cmdB_commands reset,
    WbDdr.cmdC_commands reset, WbDdr.cmdD_commands reset, maintenance, op, arg, nxt.1, nxt.2,
    access, cyc]
  have others : (ddr.step clock).cmdPipe0 = false ∧ (ddr.step clock).cmdPipe1 = false := by
    grind
  rw [others.1, others.2]
  rfl

end ZipVersa.Ddr
