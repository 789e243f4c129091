import ZipVersa.Ddr.Run
import ZipVersa.Ddr.Turning

/-! Where the precharges and the accesses of a run come from: what the registers
have decided on two clocks before the one, and a clock before the other. -/

set_option autoImplicit false

namespace ZipVersa.Ddr

open Lib

namespace WbDdr

/-- A precharge of this bank is given, alone or with all others. -/
def closes (ddr : WbDdr) (bank : Bank) : Bool := ddr.commands.any (·.closes bank)

def accesses (ddr : WbDdr) (write : Bool) (bank : Bank) : Bool :=
  ddr.commands.any (·.accesses write bank)

/-- An access of this bank leaves `cmd_pipe[2]`. -/
def leaves (ddr : WbDdr) (clock : DdrClock) (write : Bool) (bank : Bank) : Bool :=
  !clock.reset && (ddr.cmdPipe2 && clock.cyc && (ddr.s.write == write && decide (ddr.s.bank = bank)))

/-- The refresh script has the bus and is at a command that closes the bank. -/
def refreshes (ddr : WbDdr) (clock : DdrClock) (bank : Bank) : Bool :=
  !clock.reset && !ddr.script.override && ddr.refresh.needRefresh &&
    (DdrCmd.command ⟨false, ddr.refresh.cmdOp, ddr.refresh.cmdArg⟩).closes bank

/-- A precharge of the bank is two clocks away. -/
def decides (ddr : WbDdr) (clock : DdrClock) (bank : Bank) : Bool :=
  ddr.refreshes clock bank ||
    (decide (ddr.turnsAway clock = some bank) && ddr.nextBankStatus clock bank)

/-- The pipes have a precharge of this bank to give. -/
def pipesClose (ddr : WbDdr) (bank : Bank) : Bool :=
  (if ddr.cmdPipe0 then decide (ddr.s.bank = bank)
    else ddr.nxtPipe0 && decide (ddr.sNxtBank = bank)) && ddr.bankStatus bank

/-- The reset script is at a command that closes the bank. -/
def resets (ddr : WbDdr) (clock : DdrClock) (bank : Bank) : Bool :=
  !clock.reset && ddr.script.override &&
    (DdrCmd.command ⟨false, ddr.script.cmdOp, ddr.script.cmdArg⟩).closes bank

end WbDdr

/-! ### The slots -/

variable {ddr : WbDdr} {clock : DdrClock}

theorem upkeep_accesses {op : DdrOp} (upkeep : op.upkeep = true) (csN : Bool) (arg : BitVec 17)
    (write : Bool) (bank : Bank) : (DdrCmd.command ⟨csN, op, arg⟩).accesses write bank = false := by
  cases op <;> simp_all [DdrOp.upkeep, DdrCmd.command, Dram.Command.accesses]
  split_ifs <;> rfl

theorem commands_reset (reset : clock.reset = true) : (ddr.step clock).commands = [] := by
  simp [WbDdr.commands, DdrCmd.commands, WbDdr.step, WbDdr.nextCmdA, WbDdr.nextCmdB,
    WbDdr.nextCmdC, WbDdr.nextCmdD, reset]

theorem accesses_eq (upkeep : Upkeep ddr) (write : Bool) (bank : Bank) :
    (ddr.step clock).accesses write bank = ddr.leaves clock write bank := by
  cases reset : clock.reset with
  | true => rw [WbDdr.accesses, commands_reset reset, WbDdr.leaves, reset]; rfl
  | false =>
      have slotA : (ddr.nextCmdA clock).commands.any (·.accesses write bank) = false := by
        rw [WbDdr.cmdA_commands reset]
        split_ifs
        · rw [List.any_cons, upkeep_accesses upkeep.maintenanceOp]
          rfl
        · rfl
      have slotB : (ddr.nextCmdB clock).commands.any (·.accesses write bank) = false := by
        rw [WbDdr.cmdB_commands reset]
        split_ifs <;> rfl
      have slotC : (ddr.nextCmdC clock).commands.any (·.accesses write bank) = false := by
        rw [WbDdr.cmdC_commands reset]
        split_ifs <;> rfl
      rw [WbDdr.accesses, commands_step, WbDdr.slots, List.any_append, List.any_append,
        List.any_append, slotA, slotB, slotC, WbDdr.cmdD_commands reset, WbDdr.leaves, reset]
      cases ddr.cmdPipe2 && clock.cyc with
      | false => rfl
      | true => exact Bool.or_false _

theorem closes_step (bank : Bank) : (ddr.step clock).closes bank =
    (!clock.reset && ((ddr.maintenanceOverride &&
      (DdrCmd.command ⟨false, ddr.maintenanceOp, ddr.maintenanceArg⟩).closes bank) ||
        ddr.pipesClose bank)) := by
  cases reset : clock.reset with
  | true => rw [WbDdr.closes, commands_reset reset]; rfl
  | false =>
      have slotA : (ddr.nextCmdA clock).commands.any (·.closes bank) = (ddr.maintenanceOverride &&
          (DdrCmd.command ⟨false, ddr.maintenanceOp, ddr.maintenanceArg⟩).closes bank) := by
        rw [WbDdr.cmdA_commands reset]
        cases ddr.maintenanceOverride with
        | false => rfl
        | true => exact Bool.or_false _
      have precharge (place : Bank) : (if ddr.bankStatus place then [.precharge place] else []).any
          (fun command : Command => command.closes bank) =
            (decide (place = bank) && ddr.bankStatus bank) := by
        by_cases same : place = bank
        · subst same
          cases ddr.bankStatus place <;> simp [Dram.Command.closes]
        · cases ddr.bankStatus place <;> simp [Dram.Command.closes, same]
      have slotB : (ddr.nextCmdB clock).commands.any (·.closes bank) = ddr.pipesClose bank := by
        rw [WbDdr.cmdB_commands reset, WbDdr.pipesClose]
        cases ddr.cmdPipe0 with
        | true => exact precharge ddr.s.bank
        | false =>
            cases ddr.nxtPipe0 with
            | true => exact precharge ddr.sNxtBank
            | false => rfl
      have slotC : (ddr.nextCmdC clock).commands.any (·.closes bank) = false := by
        rw [WbDdr.cmdC_commands reset]
        split_ifs <;> rfl
      have slotD : (ddr.nextCmdD clock).commands.any (·.closes bank) = false := by
        rw [WbDdr.cmdD_commands reset]
        split_ifs <;> rfl
      rw [WbDdr.closes, commands_step, WbDdr.slots, List.any_append, List.any_append,
        List.any_append, slotA, slotB, slotC, slotD, Bool.or_false, Bool.or_false]
      rfl

/-! ### The decision -/

theorem pipesClose_step (bank : Bank) : (ddr.step clock).pipesClose bank =
    (decide (ddr.turnsAway clock = some bank) && ddr.nextBankStatus clock bank) := by
  have status : (ddr.step clock).bankStatus bank = ddr.nextBankStatus clock bank := rfl
  rw [WbDdr.pipesClose, status, WbDdr.turnsAway]
  congr 1
  cases drops : clock.drops with
  | true => simp [WbDdr.step, drops]
  | false =>
      cases starts : ddr.starts .precharge with
      | true =>
          have unstalled : ddr.pipeStall = false := by
            simp only [WbDdr.starts, WbDdr.moves, Bool.and_eq_true, Bool.not_eq_true'] at starts
            exact starts.1.1.1
          simp [WbDdr.step, drops, starts, unstalled]
      | false =>
          cases refresh : ddr.refresh.needRefresh <;> cases next : ddr.nextNxtPipe0 <;>
            simp [WbDdr.step, drops, starts, refresh, next]

theorem closes_noop (arg : BitVec 17) (bank : Bank) :
    (DdrCmd.command ⟨false, .noop, arg⟩).closes bank = false := rfl

theorem closes_precharge {op : DdrOp} {arg : BitVec 17} {bank : Bank}
    (closes : (DdrCmd.command ⟨false, op, arg⟩).closes bank = true) : op = .precharge := by
  cases op with
  | precharge => rfl
  | mrset => cases closes
  | refresh => cases closes
  | activate => cases closes
  | write => cases closes
  | read => cases closes
  | zqs => cases closes
  | noop => cases closes

theorem closes_decided (next : DdrClock) (bank : Bank) : ((ddr.step clock).step next).closes bank =
    (!next.reset && (ddr.resets clock bank || ddr.decides clock bank)) := by
  have maintenance : ((ddr.step clock).maintenanceOverride && (DdrCmd.command
      ⟨false, (ddr.step clock).maintenanceOp, (ddr.step clock).maintenanceArg⟩).closes bank) =
        (ddr.resets clock bank || ddr.refreshes clock bank) := by
    simp only [WbDdr.step, WbDdr.resets, WbDdr.refreshes]
    cases clock.reset with
    | true => simp [closes_noop]
    | false => cases ddr.script.override <;> simp
  rw [closes_step, maintenance, pipesClose_step, WbDdr.decides, Bool.or_assoc]

/-! ### The reset script -/

/-- While the reset script runs the pipes are empty. -/
structure Emptied (ddr : WbDdr) : Prop where
  wbStall : ddr.wbStall = true
  rPending : ddr.rPending = false
  cmdPipe0 : ddr.cmdPipe0 = false
  cmdPipe1 : ddr.cmdPipe1 = false
  cmdPipe2 : ddr.cmdPipe2 = false

theorem emptied_reset (reset : clock.reset = true) : Emptied (ddr.step clock) := by
  constructor <;> simp [WbDdr.step, DdrClock.drops, reset]

theorem Emptied.step (emptied : Emptied ddr) (override : ddr.script.override = true) :
    Emptied (ddr.step clock) := by
  obtain ⟨wbStall, rPending, cmdPipe0, cmdPipe1, cmdPipe2⟩ := emptied
  constructor <;> simp [WbDdr.step, WbDdr.accepts, WbDdr.starts, wbStall, rPending, cmdPipe0,
    cmdPipe1, override]

theorem override_back (running : clock.reset = false)
    (override : (ddr.step clock).script.override = true) : ddr.script.override = true := by
  change (ddr.script.step clock.reset).override = true at override
  rw [running, Reset.step] at override
  grind

theorem reset_noop (reset : clock.reset = true) (next : DdrClock) :
    (ddr.step clock).script.cmdOp = .noop ∧ ((ddr.step clock).step next).script.cmdOp = .noop := by
  cases again : next.reset <;> simp [WbDdr.step, Reset.step, reset, again]

/-! ### Runs -/

section Runs

variable (r s : Request) (rNxt sNxt : Row × Bank) (clocks : Nat → DdrClock)

/-- The registers from power-up on. -/
def ddrRun : Nat → WbDdr := streamed WbDdr.step (.initial r s rNxt sNxt) clocks

theorem run_upkeep (time : Nat) : Upkeep (ddrRun r s rNxt sNxt clocks time) := by
  induction time with
  | zero => constructor <;> rfl
  | succ time ih => exact ih.step

theorem run_emptied (time : Nat)
    (override : (ddrRun r s rNxt sNxt clocks time).script.override = true) :
    Emptied (ddrRun r s rNxt sNxt clocks time) := by
  induction time with
  | zero => exact ⟨rfl, rfl, rfl, rfl, rfl⟩
  | succ time ih =>
      cases reset : (clocks time).reset with
      | true => exact emptied_reset reset
      | false =>
          have before := override_back reset override
          exact (ih before).step before

theorem run_accesses (write : Bool) (bank : Bank) (time : Nat) :
    (ddrRun r s rNxt sNxt clocks (time + 1)).accesses write bank =
      (ddrRun r s rNxt sNxt clocks time).leaves (clocks time) write bank :=
  accesses_eq (run_upkeep r s rNxt sNxt clocks time) write bank

theorem run_closes (bank : Bank) (time : Nat) :
    (ddrRun r s rNxt sNxt clocks (time + 2)).closes bank = (!(clocks (time + 1)).reset &&
      ((ddrRun r s rNxt sNxt clocks time).resets (clocks time) bank ||
        (ddrRun r s rNxt sNxt clocks time).decides (clocks time) bank)) :=
  closes_decided (clocks (time + 1)) bank

/-- The reset script has had the bus for two clocks by its first precharge. -/
theorem resets_back {bank : Bank} {past time : Nat}
    (resets : (ddrRun r s rNxt sNxt clocks time).resets (clocks time) bank = true)
    (before : past ≤ time) (near : time ≤ past + 2) :
    (ddrRun r s rNxt sNxt clocks past).script.override = true := by
  simp only [WbDdr.resets, Bool.and_eq_true] at resets
  obtain ⟨⟨_, override⟩, closes⟩ := resets
  have some : (ddrRun r s rNxt sNxt clocks time).script.cmdOp ≠ .noop := by
    intro noop
    rw [noop] at closes
    exact Bool.false_ne_true closes
  have running {earlier : Nat} (first : past ≤ earlier) (last : earlier < time) :
      (clocks earlier).reset = false := by
    by_contra reset
    obtain ⟨one, two⟩ := @reset_noop (ddrRun r s rNxt sNxt clocks earlier) (clocks earlier)
      (Bool.of_not_eq_false reset) (clocks (earlier + 1))
    have later : time = earlier + 1 ∨ time = earlier + 2 := by omega
    rcases later with rfl | rfl
    · exact some one
    · exact some two
  have kept {back : Nat} (within : past + back ≤ time) :
      (ddrRun r s rNxt sNxt clocks (time - back)).script.override = true := by
    induction back with
    | zero => exact override
    | succ back ih =>
        have split : time - back = time - (back + 1) + 1 := by omega
        have after := ih (by omega)
        rw [split] at after
        exact override_back (running (by omega) (by omega)) after
  have last := @kept (time - past) (by omega)
  rwa [Nat.sub_sub_self before] at last

theorem resets_clear {bank place : Bank} {past time : Nat} (write : Bool)
    (resets : (ddrRun r s rNxt sNxt clocks time).resets (clocks time) bank = true)
    (before : past ≤ time) (near : time ≤ past + 2) :
    (ddrRun r s rNxt sNxt clocks past).leaves (clocks past) write place = false := by
  have emptied := run_emptied r s rNxt sNxt clocks past
    (resets_back r s rNxt sNxt clocks resets before near)
  rw [WbDdr.leaves, emptied.cmdPipe2, Bool.false_and, Bool.false_and, Bool.and_false]

end Runs

end ZipVersa.Ddr
