import ZipVersa.Ddr.Phases

/-! An open row and the requests that turn away from it. A request of another
row of the bank starts with a precharge, and a request of the bank before may
have the bank closed in advance. -/

set_option autoImplicit false

namespace ZipVersa.Ddr

namespace WbDdr

/-- The row open in a bank after this clock, as far as `nxt_pipe` decides. -/
def rowAfter (ddr : WbDdr) (bank : Bank) : Option Row :=
  if ddr.nxtPipe1 && ddr.sNxtBank == bank then some ddr.sNxtRow
  else if ddr.nxtPipe0 && ddr.sNxtBank == bank then none
  else ddr.opened bank

/-- The request in `r` finds another row open in its bank. -/
def Conflicts (ddr : WbDdr) : Prop :=
  ddr.rowAfter ddr.r.bank ≠ none ∧ ddr.rowAfter ddr.r.bank ≠ some ddr.r.row

instance (ddr : WbDdr) : Decidable ddr.Conflicts := inferInstanceAs (Decidable (_ ∧ _))

/-- With this row open in a bank: a request of another row leaves `r` that goes
to the bank, or to the bank before without a conflict of its own; or such a
request has its own conflict in `cmd_pipe[0]`, and the bank behind is next. -/
def TurnsFrom (ddr : WbDdr) (clock : DdrClock) (bank : Bank) (row : Row) : Prop :=
  clock.drops = false ∧
    if ddr.rPending && ddr.moves then
      ddr.r.row ≠ row ∧ (ddr.r.bank = bank ∨ (ddr.rNxtBank = bank ∧ ¬ddr.Conflicts))
    else ddr.cmdPipe0 = true ∧ ddr.refresh.needRefresh = false ∧ ddr.sNxtBank = bank ∧
      ddr.s.row ≠ row

instance (ddr : WbDdr) (clock : DdrClock) (bank : Bank) (row : Row) :
    Decidable (ddr.TurnsFrom clock bank row) := inferInstanceAs (Decidable (_ ∧ _))

/-- The bank that `cmd_pipe[0]`, or else `nxt_pipe[0]`, is about to stand for. -/
def turnsAway (ddr : WbDdr) (clock : DdrClock) : Option Bank :=
  if clock.drops then none
  else if ddr.starts .precharge then some ddr.r.bank
  else if !ddr.refresh.needRefresh && ddr.nextNxtPipe0 then
    some (if !ddr.pipeStall && ddr.rPending then ddr.rNxtBank else ddr.sNxtBank)
  else none

end WbDdr

variable {ddr : WbDdr} {clock : DdrClock} {bank : Bank} {row : Row}

/-! ### The turn of a request -/

theorem turn_access_iff (piped : Piped ddr) :
    ddr.turn = .access ↔ ddr.rowAfter ddr.r.bank = some ddr.r.row := by
  have nxt := piped.nxt
  simp only [WbDdr.turn, WbDdr.nextMatches, WbDdr.rowAfter, WbDdr.opened]
  grind

theorem turn_activate_iff (piped : Piped ddr) :
    ddr.turn = .activate ↔ ddr.rowAfter ddr.r.bank = none := by
  have nxt := piped.nxt
  simp only [WbDdr.turn, WbDdr.nextMatches, WbDdr.rowAfter, WbDdr.opened]
  grind

theorem turn_precharge_iff (piped : Piped ddr) : ddr.turn = .precharge ↔ ddr.Conflicts := by
  rw [WbDdr.Conflicts, ne_eq, ne_eq, ← turn_access_iff piped, ← turn_activate_iff piped]
  cases ddr.turn <;> simp

theorem starts_iff (piped : Piped ddr) (turn : Turn) : ddr.starts turn = true ↔
    ddr.pipeStall = false ∧ ddr.rPending = true ∧ ddr.turn = turn := by
  simp [WbDdr.starts, piped.moves, and_assoc]

/-! ### A row that stays open -/

/-- The bank keeps this row, and `nxt_pipe` is about it only once a request
beside it has turned away. -/
structure Kept (ddr : WbDdr) (bank : Bank) (row : Row) : Prop where
  status : ddr.bankStatus bank = true
  address : ddr.bankAddress bank = row
  cmdPipe0 : ddr.cmdPipe0 = true → ddr.s.bank ≠ bank
  cmdPipe1 : ddr.cmdPipe1 = true → ddr.s.bank ≠ bank
  nxtPipe0 : ddr.nxtPipe0 = true → ddr.sNxtBank = bank → ddr.cmdPipe0 = true ∧ ddr.s.row ≠ row
  nxtPipe1 : ddr.nxtPipe1 = true → ddr.sNxtBank ≠ bank
  behind : ddr.cmdPipe0 = true → ddr.sNxtBank = bank → ddr.s.row ≠ row → ddr.nxtPipe0 = true

/-- An access finds its row open, and nothing under way in its bank. -/
theorem accessed_kept (piped : Piped ddr) (ready : Ready ddr) (accesses : ddr.cmdPipe2 = true) :
    Kept ddr ddr.s.bank ddr.s.row := by
  obtain ⟨single, -, -, sPending, -, sApart, -, -⟩ := piped
  obtain ⟨status, address⟩ := ready.opened accesses
  have apart := sApart (by rw [sPending, accesses, Bool.or_true])
  have idle0 : ddr.cmdPipe0 ≠ true := fun first => single.2.1 ⟨first, accesses⟩
  exact ⟨status, address, fun first => absurd first idle0,
    fun second => absurd ⟨second, accesses⟩ single.2.2, fun _ same => absurd same apart,
    fun _ => apart, fun first => absurd first idle0⟩

theorem Kept.rowAfter (kept : Kept ddr bank row) (free : ddr.cmdPipe0 = false) :
    ddr.rowAfter bank = some row := by
  obtain ⟨status, address, -, -, nxtPipe0, nxtPipe1, -⟩ := kept
  simp only [WbDdr.rowAfter, WbDdr.opened]
  grind

/-- A request of the bank itself. -/
theorem Kept.conflicts (kept : Kept ddr bank row) (free : ddr.cmdPipe0 = false)
    (same : ddr.r.bank = bank) : ddr.Conflicts ↔ ddr.r.row ≠ row := by
  subst same
  rw [WbDdr.Conflicts, kept.rowAfter free]
  simp [eq_comm]

/-- What `nxt_pipe` has decided it gives on the next clock, behind a precharge
of `cmd_pipe[0]`. -/
theorem Kept.status_next (kept : Kept ddr bank row) (running : clock.reset = false)
    (free : ddr.maintenanceOverride = false) : ddr.nextBankStatus clock bank = true := by
  obtain ⟨status, -, cmdPipe0, -, nxtPipe0, -, -⟩ := kept
  simp only [WbDdr.nextBankStatus]
  grind

/-- While the row is kept, the bank is closed exactly by those that turn from it. -/
theorem Kept.turnsAway_iff (kept : Kept ddr bank row) (piped : Piped ddr)
    (calm : ddr.rPending = true → ddr.refresh.needRefresh = false) :
    ddr.turnsAway clock = some bank ↔ ddr.TurnsFrom clock bank row := by
  have conflicts := turn_precharge_iff piped
  have starts := starts_iff piped .precharge
  have moves := piped.moves
  cases drops : clock.drops with
  | true => simp [WbDdr.turnsAway, WbDdr.TurnsFrom, drops]
  | false =>
      cases stalled : ddr.pipeStall with
      | true =>
          have still : ddr.starts .precharge = false := by simp [WbDdr.starts, moves, stalled]
          have moved : ddr.moves = false := by rw [moves, stalled]; rfl
          obtain ⟨single, nxt, pipeStall, -⟩ := piped
          obtain ⟨-, -, -, -, nxtPipe0, -, behind⟩ := kept
          simp only [WbDdr.turnsAway, WbDdr.TurnsFrom, drops, still, moved, stalled,
            WbDdr.nextNxtPipe0]
          grind
      | false =>
          have moved : ddr.moves = true := by rw [moves, stalled]; rfl
          have idle : ddr.cmdPipe0 = false := by
            have both := piped.pipeStall
            rw [stalled] at both
            exact (Bool.or_eq_false_iff.mp both.symm).1
          cases pending : ddr.rPending with
          | false =>
              simp [WbDdr.turnsAway, WbDdr.TurnsFrom, WbDdr.nextNxtPipe0, WbDdr.starts, drops,
                moved, pending, idle]
          | true =>
              have apart := piped.rApart pending
              have own := kept.conflicts idle
              have needs := calm pending
              obtain ⟨status, address, -⟩ := kept
              simp only [WbDdr.turnsAway, WbDdr.TurnsFrom, drops, moved, pending, needs,
                stalled, WbDdr.nextNxtPipe0]
              by_cases conflict : ddr.Conflicts
              · have begun : ddr.starts .precharge = true :=
                  starts.mpr ⟨stalled, pending, conflicts.mpr conflict⟩
                simp only [begun]
                grind
              · have other : ddr.starts .precharge = false := by
                  refine Bool.eq_false_iff.mpr fun begun => conflict ?_
                  exact conflicts.mp (starts.mp begun).2.2
                simp only [other]
                grind

theorem Kept.step (kept : Kept ddr bank row) (piped : Piped ddr) (running : clock.reset = false)
    (free : ddr.maintenanceOverride = false)
    (calm : ddr.rPending = true → ddr.refresh.needRefresh = false)
    (stays : ¬ddr.TurnsFrom clock bank row) : Kept (ddr.step clock) bank row := by
  have status := kept.status_next running free
  have started := starts_iff piped .precharge
  have activated := starts_iff piped .activate
  have own : ddr.cmdPipe0 = false → ddr.r.bank = bank →
      (ddr.Conflicts ↔ ddr.r.row ≠ row) := kept.conflicts
  have conflicts := turn_precharge_iff piped
  have opens := turn_activate_iff piped
  have moves := piped.moves
  have apart := piped.rApart
  have idle : ddr.pipeStall = false → ddr.cmdPipe0 = false := by
    intro free
    have both := piped.pipeStall
    rw [free] at both
    exact (Bool.or_eq_false_iff.mp both.symm).1
  have after := kept.rowAfter
  simp only [WbDdr.TurnsFrom] at stays
  obtain ⟨single, nxt, pipeStall, -⟩ := piped
  obtain ⟨opened, address, cmdPipe0, cmdPipe1, nxtPipe0, nxtPipe1, behind⟩ := kept
  constructor
  · exact status
  · simp only [WbDdr.step, WbDdr.nextBankAddress]
    grind
  · simp only [WbDdr.step]
    grind
  · simp only [WbDdr.step]
    grind
  · simp only [WbDdr.step, WbDdr.nextNxtPipe0]
    grind
  · simp only [WbDdr.step, WbDdr.nextNxtPipe1]
    grind
  · simp only [WbDdr.step, WbDdr.nextNxtPipe0]
    grind

/-! ### Behind an access -/

/-- The scripts have the bus. -/
def WbDdr.Blocked (ddr : WbDdr) : Prop :=
  ddr.script.override = true ∨ ddr.refresh.needRefresh = true

/-- The pipes close nothing then. -/
theorem Stage.blocked (stage : Stage ddr) (piped : Piped ddr) (blocked : ddr.Blocked)
    (bank : Bank) (row : Row) :
    ddr.turnsAway clock ≠ some bank ∧ ¬ddr.TurnsFrom clock bank row := by
  have pending : ddr.rPending = false := by
    refine Bool.eq_false_iff.mpr fun pending => ?_
    obtain ⟨override, needs⟩ := stage.pending pending
    rcases blocked with resets | refreshes
    · exact absurd (override.symm.trans resets) Bool.false_ne_true
    · exact absurd (needs.symm.trans refreshes) Bool.false_ne_true
  have rests : ddr.refresh.needRefresh = true ∨ (ddr.cmdPipe0 = false ∧ ddr.cmdPipe1 = false) := by
    cases stage with
    | resetting _ _ resting => exact .inr ⟨resting.cmdPipe0, resting.cmdPipe1⟩
    | leaving override => exact .inl (blocked.resolve_left (by rw [override]; decide))
    | serving override => exact .inl (blocked.resolve_left (by rw [override]; decide))
    | taking _ _ override => exact .inl (blocked.resolve_left (by rw [override]; decide))
  have starts : ddr.starts .precharge = false := by simp [WbDdr.starts, pending]
  have moves := piped.moves
  have pipeStall := piped.pipeStall
  simp only [WbDdr.turnsAway, WbDdr.TurnsFrom, WbDdr.nextNxtPipe0, starts, pending]
  grind

theorem WbDdr.Blocked.step {limit : Nat} (blocked : ddr.Blocked) (upto : ddr.refresh.Upto limit)
    (within : limit < 17) (override : ddr.script.override = false) :
    (ddr.step clock).Blocked := by
  have needs := blocked.resolve_left (by rw [override]; decide)
  cases reset : clock.reset with
  | true => exact .inl (by simp [WbDdr.step, Reset.step, reset])
  | false =>
      refine .inr ?_
      rw [(override_stays reset override).2]
      exact upto.stays within needs

/-- So far behind an access the row is kept, or no one can turn from it. -/
def Follows (ddr : WbDdr) (clock : DdrClock) (bank : Bank) (row : Row) : Prop :=
  ddr.Blocked ∨ clock.reset = true ∨ (Kept ddr bank row ∧ ddr.maintenanceOverride = false)

theorem Stage.accessed (stage : Stage ddr) (piped : Piped ddr) (accesses : ddr.cmdPipe2 = true)
    (clock : DdrClock) : Follows ddr clock ddr.s.bank ddr.s.row := by
  obtain ⟨override, upto, free⟩ := stage.accessing accesses
  cases needs : ddr.refresh.needRefresh with
  | true => exact .inl (.inr needs)
  | false =>
      obtain ⟨ready, maintenance⟩ := free needs
      exact .inr (.inr ⟨accessed_kept piped ready accesses, maintenance⟩)

theorem Follows.step {bank : Bank} {row : Row} {next : DdrClock}
    (follows : Follows ddr clock bank row) (piped : Piped ddr) (stage : Stage ddr)
    (stays : ddr.Blocked → (ddr.step clock).Blocked)
    (unturned : next.reset = false → ¬ddr.TurnsFrom clock bank row) :
    Follows (ddr.step clock) next bank row := by
  cases reset : clock.reset with
  | true => exact .inl (.inl (by simp [WbDdr.step, Reset.step, reset]))
  | false =>
      rcases follows with blocked | resets | ⟨kept, maintenance⟩
      · exact .inl (stays blocked)
      · exact absurd (reset.symm.trans resets) Bool.false_ne_true
      · by_cases blocked : ddr.Blocked
        · exact .inl (stays blocked)
        · cases ends : next.reset with
          | true => exact .inr (.inl ends)
          | false =>
              refine .inr (.inr ⟨kept.step piped reset maintenance
                (fun pending => (stage.pending pending).2) (unturned ends), ?_⟩)
              simp only [WbDdr.Blocked, not_or, Bool.not_eq_true] at blocked
              simp [WbDdr.step, reset, blocked.1, blocked.2]

/-- Then a precharge of the pipes is one of those that turn from the row. -/
theorem Follows.turns {bank : Bank} {row : Row} (follows : Follows ddr clock bank row)
    (piped : Piped ddr) (stage : Stage ddr) :
    ddr.turnsAway clock = some bank ∧ ddr.nextBankStatus clock bank = true ↔
      ddr.TurnsFrom clock bank row := by
  rcases follows with blocked | reset | ⟨kept, maintenance⟩
  · obtain ⟨away, turns⟩ := @Stage.blocked ddr clock stage piped blocked bank row
    exact iff_of_false (fun both => away both.1) turns
  · have drops : clock.drops = true := by simp [DdrClock.drops, reset]
    simp [WbDdr.turnsAway, WbDdr.TurnsFrom, drops]
  · rw [kept.turnsAway_iff piped fun pending => (stage.pending pending).2]
    refine and_iff_left_of_imp fun turns => ?_
    exact kept.status_next (drops_held turns.1).1 maintenance

end ZipVersa.Ddr
