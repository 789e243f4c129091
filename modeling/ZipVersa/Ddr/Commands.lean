import ZipVersa.Ddr.Controller

/-! What the chip is told: the four slots of a clock in their order, and the
chip's banks beside the requests of the bus. -/

set_option autoImplicit false

namespace ZipVersa.Ddr

open Lib

namespace DdrCmd

variable (cmd : DdrCmd)

def bank : Bank := cmd.arg.extractLsb' 14 3

/-- Address bit 10 makes a precharge one of all banks. -/
def command : Command :=
  match cmd.op with
  | .activate => .activate cmd.bank (cmd.arg.extractLsb' 0 14)
  | .precharge => if cmd.arg.getLsbD 10 then .prechargeAll else .precharge cmd.bank
  | .write => .access true cmd.bank (cmd.arg.extractLsb' 0 10)
  | .read => .access false cmd.bank (cmd.arg.extractLsb' 0 10)
  | .refresh => .refresh
  | .mrset => .other
  | .zqs => .other
  | .noop => .other

def commands : List Command := if cmd.csN then [] else [cmd.command]

end DdrCmd

/-- Slots A, B, C and D. -/
def WbDdr.commands (ddr : WbDdr) : List Command :=
  ddr.cmdA.commands ++ (ddr.cmdB.commands ++ (ddr.cmdC.commands ++ ddr.cmdD.commands))

theorem extract_high {high low : Nat} (first : BitVec high) (second : BitVec low) :
    (first ++ second).extractLsb' low high = first := by
  ext place inside
  simp [BitVec.getLsbD_append, inside]

theorem extract_low {high low count : Nat} (first : BitVec high) (second : BitVec low)
    (within : count ≤ low) :
    (first ++ second).extractLsb' 0 count = second.extractLsb' 0 count := by
  ext place inside
  simp [BitVec.getLsbD_append]
  omega

theorem getLsbD_low {high low place : Nat} (first : BitVec high) (second : BitVec low)
    (within : place < low) : (first ++ second).getLsbD place = second.getLsbD place := by
  simp [BitVec.getLsbD_append, within]

theorem prechargeArg_command (bank : Bank) (row : Row) (csN : Bool) :
    DdrCmd.command ⟨csN, .precharge, WbDdr.prechargeArg bank row⟩ = .precharge bank := by
  have one : (WbDdr.prechargeArg bank row).getLsbD 10 = false := by
    have cleared : (row.extractLsb' 11 3 ++ 0#1).getLsbD 0 = false :=
      (getLsbD_low (row.extractLsb' 11 3) 0#1 (by decide)).trans rfl
    refine (getLsbD_low bank _ (by decide)).trans ?_
    rw [BitVec.getLsbD_append]
    exact cleared
  have named : (WbDdr.prechargeArg bank row).extractLsb' 14 3 = bank := extract_high bank _
  rw [DdrCmd.command, if_neg (by rw [one]; decide), DdrCmd.bank, named]

theorem activate_command (bank : Bank) (row : Row) (csN : Bool) :
    DdrCmd.command ⟨csN, .activate, bank ++ row⟩ = .activate bank row := by
  have named : (bank ++ row : BitVec 17).extractLsb' 14 3 = bank := extract_high bank row
  have address : (bank ++ row : BitVec 17).extractLsb' 0 14 = row :=
    (extract_low bank row (Nat.le_refl 14)).trans BitVec.extractLsb'_eq_self
  rw [DdrCmd.command, DdrCmd.bank, named, address]

theorem access_command (request : Request) (csN : Bool) :
    DdrCmd.command ⟨csN, if request.write then .write else .read,
      request.bank ++ (0#3 ++ 0#1 ++ request.column)⟩ = request.command := by
  have named : (request.bank ++ (0#3 ++ 0#1 ++ request.column) : BitVec 17).extractLsb' 14 3 =
      request.bank := extract_high request.bank _
  have column : (request.bank ++ (0#3 ++ 0#1 ++ request.column) : BitVec 17).extractLsb' 0 10 =
      request.column := by
    refine (extract_low request.bank _ (by decide)).trans ?_
    exact (extract_low (0#3 ++ 0#1) request.column (Nat.le_refl 10)).trans BitVec.extractLsb'_eq_self
  cases write : request.write with
  | false => simp only [DdrCmd.command, DdrCmd.bank, named, column, Dram.Request.command, write]; rfl
  | true => simp only [DdrCmd.command, DdrCmd.bank, named, column, Dram.Request.command, write]; rfl

namespace WbDdr

variable {ddr : WbDdr} {clock : DdrClock}

/-! ### The slots of the next clock -/

theorem cmdA_commands (running : clock.reset = false) : (ddr.nextCmdA clock).commands =
    if ddr.maintenanceOverride then
      [DdrCmd.command ⟨false, ddr.maintenanceOp, ddr.maintenanceArg⟩] else [] := by
  unfold DdrCmd.commands nextCmdA
  cases ddr.maintenanceOverride <;> simp [running, DdrCmd.command, DdrCmd.bank]

theorem cmdB_commands (running : clock.reset = false) : (ddr.nextCmdB clock).commands =
    if ddr.cmdPipe0 then (if ddr.bankStatus ddr.s.bank then [.precharge ddr.s.bank] else [])
    else if ddr.nxtPipe0 && ddr.bankStatus ddr.sNxtBank then [.precharge ddr.sNxtBank]
    else [] := by
  unfold DdrCmd.commands nextCmdB
  cases ddr.cmdPipe0 with
  | true => cases ddr.bankStatus ddr.s.bank <;> simp [running, prechargeArg_command]
  | false =>
      cases ddr.nxtPipe0 with
      | true => cases ddr.bankStatus ddr.sNxtBank <;> simp [running, prechargeArg_command]
      | false => simp [running]

theorem cmdC_commands (running : clock.reset = false) : (ddr.nextCmdC clock).commands =
    if ddr.cmdPipe1 then [.activate ddr.s.bank ddr.s.row]
    else if ddr.nxtPipe1 then [.activate ddr.sNxtBank ddr.sNxtRow]
    else [] := by
  unfold DdrCmd.commands nextCmdC
  cases ddr.cmdPipe1 with
  | true => simp [running, activate_command]
  | false => cases ddr.nxtPipe1 <;> simp [running, activate_command]

theorem cmdD_commands (running : clock.reset = false) : (ddr.nextCmdD clock).commands =
    if ddr.cmdPipe2 && clock.cyc then [ddr.s.command] else [] := by
  unfold DdrCmd.commands nextCmdD
  dsimp only
  rw [access_command, running]
  cases ddr.cmdPipe2 <;> cases clock.cyc <;> rfl

end WbDdr

end ZipVersa.Ddr
