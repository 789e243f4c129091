import ZipVersa.Ddr.Commands

/-! What holds of the two pipes at every clock, and of the bank registers
beside the chip's banks while no maintenance has the command bus. -/

set_option autoImplicit false

namespace ZipVersa.Ddr

open Lib

/-- The bank behind that of a request is another one. -/
theorem following_bank (clock : DdrClock) :
    clock.following.extractLsb' 0 3 ≠ clock.request.bank := by
  intro same
  have low : (clock.addr.extractLsb' 7 17).toNat % 8 = clock.request.bank.toNat := by
    simp only [DdrClock.request, BitVec.extractLsb'_toNat]
    omega
  have one : (1 : BitVec 17).toNat = 1 := rfl
  have next := congrArg BitVec.toNat same
  simp only [DdrClock.following, BitVec.extractLsb'_toNat, BitVec.toNat_add,
    Nat.shiftRight_zero] at next
  rw [← BitVec.extractLsb'_toNat] at next
  omega

/-- The registers of the pipes at every clock. -/
structure Piped (ddr : WbDdr) : Prop where
  single : ¬(ddr.cmdPipe0 ∧ ddr.cmdPipe1) ∧ ¬(ddr.cmdPipe0 ∧ ddr.cmdPipe2) ∧
    ¬(ddr.cmdPipe1 ∧ ddr.cmdPipe2)
  nxt : ¬(ddr.nxtPipe0 ∧ ddr.nxtPipe1)
  pipeStall : ddr.pipeStall = (ddr.cmdPipe0 || ddr.cmdPipe1)
  sPending : ddr.sPending = (ddr.cmdPipe0 || ddr.cmdPipe1 || ddr.cmdPipe2)
  dirStall : ddr.dirStall = false
  sApart : ddr.sPending = true → ddr.sNxtBank ≠ ddr.s.bank
  rApart : ddr.rPending = true → ddr.rNxtBank ≠ ddr.r.bank
  full : ddr.rPending = true → ddr.pipeStall = true → ddr.wbStall = true

variable {ddr : WbDdr} {clock : DdrClock}

theorem Piped.moves (piped : Piped ddr) : ddr.moves = !ddr.pipeStall := by
  simp [WbDdr.moves, piped.dirStall]

theorem drops_held (held : clock.drops = false) : clock.reset = false ∧ clock.cyc = true := by
  simpa [DdrClock.drops] using held

theorem Piped.step (piped : Piped ddr)
    (direction : ddr.accepts clock = true → ddr.rPending = true → ddr.r.write = clock.we) :
    Piped (ddr.step clock) := by
  have moves := piped.moves
  obtain ⟨single, nxt, pipeStall, sPending, dirStall, sApart, rApart, full⟩ := piped
  constructor
  · clear sApart rApart
    cases turn : ddr.turn <;> simp only [WbDdr.step, WbDdr.starts, turn] <;> grind
  · clear sApart rApart
    simp only [WbDdr.step, WbDdr.nextNxtPipe0, WbDdr.nextNxtPipe1]
    grind
  · clear sApart rApart
    cases turn : ddr.turn <;> simp only [WbDdr.step, WbDdr.starts, turn] <;> grind
  · clear sApart rApart
    cases turn : ddr.turn <;> simp only [WbDdr.step, WbDdr.starts, turn] <;> grind
  · clear sApart rApart
    simp only [WbDdr.step]
    grind
  · simp only [WbDdr.step]
    grind
  · have apart := following_bank clock
    simp only [WbDdr.step, WbDdr.accepts]
    grind
  · clear sApart rApart
    cases turn : ddr.turn <;> simp only [WbDdr.step, WbDdr.accepts, WbDdr.nextWbStall, turn] <;> grind

theorem initial_piped (r s : Request) (rNxt sNxt : Row × Bank) :
    Piped (.initial r s rNxt sNxt) := by
  constructor <;> simp [WbDdr.initial]

/-- The pipes beside the bank registers. -/
structure Ready (ddr : WbDdr) : Prop where
  closed : ddr.cmdPipe1 = true → ddr.bankStatus ddr.s.bank = false
  opened : ddr.cmdPipe2 = true →
    ddr.bankStatus ddr.s.bank = true ∧ ddr.bankAddress ddr.s.bank = ddr.s.row
  nxtClosed : ddr.nxtPipe1 = true → ddr.bankStatus ddr.sNxtBank = false

/-- The choice for the request in `r` fits the bank registers of the next clock. -/
theorem turn_access (piped : Piped ddr) (running : clock.reset = false)
    (free : ddr.maintenanceOverride = false) (moves : ddr.pipeStall = false)
    (turn : ddr.turn = .access) : ddr.nextBankStatus clock ddr.r.bank = true ∧
      ddr.nextBankAddress ddr.r.bank = ddr.r.row := by
  obtain ⟨-, nxt, pipeStall, -⟩ := piped
  simp only [WbDdr.turn, WbDdr.nextMatches] at turn
  simp only [WbDdr.nextBankStatus, WbDdr.nextBankAddress]
  grind

theorem turn_activate (piped : Piped ddr) (running : clock.reset = false)
    (free : ddr.maintenanceOverride = false) (moves : ddr.pipeStall = false)
    (turn : ddr.turn = .activate) : ddr.nextBankStatus clock ddr.r.bank = false := by
  obtain ⟨-, nxt, pipeStall, -⟩ := piped
  simp only [WbDdr.turn, WbDdr.nextMatches] at turn
  simp only [WbDdr.nextBankStatus]
  grind

theorem Ready.step (ready : Ready ddr) (piped : Piped ddr) (running : clock.reset = false)
    (free : ddr.maintenanceOverride = false) : Ready (ddr.step clock) := by
  obtain ⟨closed, opened, nxtClosed⟩ := ready
  have access := @turn_access ddr clock piped running free
  have activate := @turn_activate ddr clock piped running free
  have moves := piped.moves
  obtain ⟨single, nxt, pipeStall, sPending, dirStall, sApart, rApart, full⟩ := piped
  constructor
  · simp only [WbDdr.step, WbDdr.starts]
    cases stalled : ddr.pipeStall with
    | false => grind
    | true =>
        simp only [WbDdr.nextBankStatus]
        grind
  · simp only [WbDdr.step, WbDdr.starts]
    cases stalled : ddr.pipeStall with
    | false => grind
    | true =>
        simp only [WbDdr.nextBankStatus, WbDdr.nextBankAddress]
        grind
  · simp only [WbDdr.step, WbDdr.nextNxtPipe1, WbDdr.nextBankStatus]
    grind

/-! ### The chip -/

/-- The bank registers as the chip's banks. -/
def WbDdr.opened (ddr : WbDdr) (bank : Bank) : Option Row :=
  if ddr.bankStatus bank then some (ddr.bankAddress bank) else none

/-- Slots B, C and D of the next clock. -/
def WbDdr.slots (ddr : WbDdr) (clock : DdrClock) : List Command :=
  (ddr.nextCmdB clock).commands ++ ((ddr.nextCmdC clock).commands ++ (ddr.nextCmdD clock).commands)

theorem commands_step (ddr : WbDdr) (clock : DdrClock) :
    (ddr.step clock).commands = (ddr.nextCmdA clock).commands ++ ddr.slots clock := rfl

variable {chip : Dram.Chip Bank Row (BitVec 10)}

theorem slotB_rows (running : clock.reset = false) (rows : chip.rows = ddr.opened) (bank : Bank) :
    (chip.applyAll (ddr.nextCmdB clock).commands).rows bank =
      if (ddr.cmdPipe0 && bank == ddr.s.bank) ||
          (!ddr.cmdPipe0 && ddr.nxtPipe0 && bank == ddr.sNxtBank) then none
      else ddr.opened bank := by
  rw [WbDdr.cmdB_commands running, WbDdr.opened]
  split_ifs <;> simp [Dram.Chip.applyAll, Dram.Chip.apply, rows, WbDdr.opened,
    Function.update_apply] <;> grind

theorem slotC_rows (running : clock.reset = false) (bank : Bank) :
    (chip.applyAll (ddr.nextCmdC clock).commands).rows bank =
      if ddr.cmdPipe1 && bank == ddr.s.bank then some ddr.s.row
      else if !ddr.cmdPipe1 && ddr.nxtPipe1 && bank == ddr.sNxtBank then some ddr.sNxtRow
      else chip.rows bank := by
  rw [WbDdr.cmdC_commands running]
  split_ifs <;> simp [Dram.Chip.applyAll, Dram.Chip.apply, Function.update_apply] <;> grind

theorem slotD_rows (running : clock.reset = false) :
    (chip.applyAll (ddr.nextCmdD clock).commands).rows = chip.rows := by
  rw [WbDdr.cmdD_commands running]
  split_ifs <;> rfl

theorem slotBC_waiting (running : clock.reset = false) :
    ((chip.applyAll (ddr.nextCmdB clock).commands).applyAll (ddr.nextCmdC clock).commands).waiting =
      chip.waiting := by
  rw [WbDdr.cmdB_commands running, WbDdr.cmdC_commands running]
  split_ifs <;> rfl

theorem slots_allowed (piped : Piped ddr) (ready : Ready ddr) (running : clock.reset = false)
    (rows : chip.rows = ddr.opened)
    (oldest : ddr.cmdPipe2 = true → ∃ rest, chip.waiting = ddr.s :: rest) :
    chip.AllowsAll (ddr.slots clock) := by
  obtain ⟨closed, opened, nxtClosed⟩ := ready
  obtain ⟨single, nxt, -, sPending, -, sApart, -, -⟩ := piped
  have afterB := @slotB_rows _ _ _ running rows
  have afterC := @slotC_rows ddr clock (chip.applyAll (ddr.nextCmdB clock).commands) running
  have waiting := @slotBC_waiting ddr clock chip running
  unfold WbDdr.slots
  rw [Dram.Chip.allowsAll_append, Dram.Chip.allowsAll_append]
  refine ⟨?_, ?_, ?_⟩
  · rw [WbDdr.cmdB_commands running]
    split_ifs <;> simp [Dram.Chip.AllowsAll, Dram.Chip.Allows]
  · rw [WbDdr.cmdC_commands running]
    split_ifs with activates next
    · refine ⟨(afterB ddr.s.bank).trans ?_, trivial⟩
      simp [WbDdr.opened, closed activates]
    · refine ⟨(afterB ddr.sNxtBank).trans ?_, trivial⟩
      simp [WbDdr.opened, nxtClosed next]
    · trivial
  · rw [WbDdr.cmdD_commands running]
    split_ifs with accesses
    · rw [Bool.and_eq_true] at accesses
      obtain ⟨rest, first⟩ := oldest accesses.1
      obtain ⟨status, address⟩ := opened accesses.1
      refine ⟨⟨ddr.s.row, rest, waiting.trans first, (afterC ddr.s.bank).trans ?_⟩, trivial⟩
      rw [afterB, WbDdr.opened, status, address]
      grind
    · trivial

/-- The commands do to the chip's banks what the bank registers record. -/
theorem slots_rows (piped : Piped ddr) (running : clock.reset = false)
    (free : ddr.maintenanceOverride = false) (rows : chip.rows = ddr.opened) :
    (chip.applyAll (ddr.slots clock)).rows = (ddr.step clock).opened := by
  obtain ⟨single, nxt, -, sPending, -, sApart, -, -⟩ := piped
  have afterC := @slotC_rows ddr clock (chip.applyAll (ddr.nextCmdB clock).commands) running
  funext bank
  unfold WbDdr.slots
  rw [Dram.Chip.applyAll_append, Dram.Chip.applyAll_append, slotD_rows running, afterC,
    slotB_rows running rows]
  simp only [WbDdr.opened, WbDdr.step, WbDdr.nextBankStatus, WbDdr.nextBankAddress]
  grind

/-! ### The requests -/

/-- Accepted requests without their access. -/
def WbDdr.queue (ddr : WbDdr) : List Request :=
  (if ddr.sPending then [ddr.s] else []) ++ (if ddr.rPending then [ddr.r] else [])

def WbDdr.accepted (ddr : WbDdr) (clock : DdrClock) : List Request :=
  if ddr.accepts clock then [clock.request] else []

theorem slots_waiting (running : clock.reset = false) :
    (chip.applyAll (ddr.slots clock)).waiting =
      if ddr.cmdPipe2 && clock.cyc then chip.waiting.tail else chip.waiting := by
  unfold WbDdr.slots
  rw [Dram.Chip.applyAll_append, Dram.Chip.applyAll_append, WbDdr.cmdD_commands running]
  have same := @slotBC_waiting ddr clock chip running
  split_ifs
  · exact congrArg List.tail same
  · exact same

theorem Piped.oldest (piped : Piped ddr) (accesses : ddr.cmdPipe2 = true) :
    ∃ rest, ddr.queue = ddr.s :: rest := by
  have pending := piped.sPending
  rw [accesses, Bool.or_true] at pending
  exact ⟨_, by rw [WbDdr.queue, if_pos pending]; rfl⟩

/-- What enters behind the queue and what leaves it by its access. -/
theorem Piped.queue_step (piped : Piped ddr) (held : clock.drops = false) :
    (if ddr.cmdPipe2 then ddr.queue.tail else ddr.queue) ++ ddr.accepted clock =
      (ddr.step clock).queue := by
  have moves := piped.moves
  obtain ⟨single, nxt, pipeStall, sPending, dirStall, -, -, full⟩ := piped
  unfold WbDdr.queue WbDdr.accepted
  simp only [WbDdr.step, WbDdr.accepts]
  grind

theorem queue_dropped (dropped : clock.drops = true) : (ddr.step clock).queue = [] := by
  simp [WbDdr.queue, WbDdr.step, dropped]

end ZipVersa.Ddr
