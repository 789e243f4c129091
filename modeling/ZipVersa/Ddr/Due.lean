import ZipVersa.Ddr.Precharge

/-! The requests in the pipes when a refresh begins: how soon each of them has its
access, and how far the script then is from its precharge. -/

set_option autoImplicit false

namespace ZipVersa.Ddr

/-- The requests of the pipes with the clocks until they are in `cmd_pipe[2]`,
those of `r` only without a conflict. -/
inductive WbDdr.Due (ddr : WbDdr) : Nat → Request → Prop where
  | now (accesses : ddr.cmdPipe2 = true) : Due ddr 0 ddr.s
  | next (activates : ddr.cmdPipe1 = true) : Due ddr 1 ddr.s
  | later (precharges : ddr.cmdPipe0 = true) : Due ddr 2 ddr.s
  | opened (pending : ddr.rPending = true) (moves : ddr.moves = true)
      (row : ddr.rowAfter ddr.r.bank = some ddr.r.row) : Due ddr 1 ddr.r
  | closed (pending : ddr.rPending = true) (moves : ddr.moves = true)
      (row : ddr.rowAfter ddr.r.bank = none) : Due ddr 2 ddr.r

variable {ddr : WbDdr} {clock : DdrClock} {count : Nat} {request : Request}

theorem WbDdr.Due.step (due : ddr.Due (count + 1) request) (piped : Piped ddr)
    (held : clock.drops = false) : (ddr.step clock).Due count request := by
  have moves := piped.moves
  have starts {turn : Turn} (pending : ddr.rPending = true) (moving : ddr.moves = true)
      (own : ddr.turn = turn) : ddr.starts turn = true := by
    simp [WbDdr.starts, pending, moving, own]
  have stays (busy : ddr.pipeStall = true) : (ddr.step clock).s = ddr.s := by
    simp [WbDdr.step, busy]
  have enters (moving : ddr.moves = true) : (ddr.step clock).s = ddr.r := by
    rw [moves, Bool.not_eq_true'] at moving
    simp [WbDdr.step, moving]
  cases due with
  | next activates =>
      have stalled : ddr.pipeStall = true := by rw [piped.pipeStall, activates, Bool.or_true]
      rw [← stays stalled]
      exact .now (by simp [WbDdr.step, moves, held, stalled, activates])
  | later precharges =>
      have stalled : ddr.pipeStall = true := by rw [piped.pipeStall, precharges, Bool.true_or]
      rw [← stays stalled]
      exact .next (by simp [WbDdr.step, moves, held, stalled, precharges])
  | opened pending moving row =>
      have begun := starts pending moving ((turn_access_iff piped).mpr row)
      rw [← enters moving]
      exact .now (by simp [WbDdr.step, held, moving, begun])
  | closed pending moving row =>
      have begun := starts pending moving ((turn_activate_iff piped).mpr row)
      rw [← enters moving]
      exact .next (by simp [WbDdr.step, held, moving, begun])

/-- With nothing behind it in `r`. -/
theorem WbDdr.Due.back (due : (ddr.step clock).Due count request) (piped : Piped ddr)
    (last : (ddr.step clock).rPending = false) (soon : count ≤ 1) :
    clock.drops = false ∧ ddr.Due (count + 1) request := by
  have stays (busy : (ddr.cmdPipe0 || ddr.cmdPipe1) = true) : (ddr.step clock).s = ddr.s := by
    rw [← piped.pipeStall] at busy
    simp [WbDdr.step, busy]
  have enters {turn : Turn} (begun : ddr.starts turn = true) : (ddr.step clock).s = ddr.r ∧
      ddr.rPending = true ∧ ddr.moves = true ∧ ddr.turn = turn := by
    obtain ⟨free, pending, own⟩ := (starts_iff piped turn).mp begun
    exact ⟨by simp [WbDdr.step, free], pending, by rw [piped.moves, free]; rfl, own⟩
  cases due with
  | now accesses =>
      obtain ⟨held, begun | activates⟩ := cmdPipe2_step accesses
      · obtain ⟨same, pending, moving, own⟩ := enters begun
        rw [same]
        exact ⟨held, .opened pending moving ((turn_access_iff piped).mp own)⟩
      · rw [stays (by rw [activates, Bool.or_true])]
        exact ⟨held, .next activates⟩
  | next activates =>
      obtain ⟨held, begun | precharges⟩ := cmdPipe1_step activates
      · obtain ⟨same, pending, moving, own⟩ := enters begun
        rw [same]
        exact ⟨held, .closed pending moving ((turn_activate_iff piped).mp own)⟩
      · rw [stays (by rw [precharges, Bool.true_or])]
        exact ⟨held, .later precharges⟩
  | later => exact absurd soon (by decide)
  | opened pending => exact absurd (last.symm.trans pending) Bool.false_ne_true
  | closed pending => exact absurd (last.symm.trans pending) Bool.false_ne_true

/-- Two clocks before its precharge the refresh script raises `need_refresh`. -/
theorem Stage.refreshes {bank : Bank} (stage : Stage ddr)
    (refreshes : ddr.refreshes clock bank = true) :
    clock.reset = false ∧ ddr.script.override = false ∧ Drains 5 ddr := by
  simp only [WbDdr.refreshes, Bool.and_eq_true, Bool.not_eq_true'] at refreshes
  obtain ⟨⟨⟨running, override⟩, needs⟩, closes⟩ := refreshes
  cases stage with
  | resetting before => exact absurd (override.symm.trans before) Bool.false_ne_true
  | leaving _ waits => exact absurd (waits.needRefresh.symm.trans needs) Bool.false_ne_true
  | serving _ waits => exact absurd (waits.needRefresh.symm.trans needs) Bool.false_ne_true
  | taking count within _ drains =>
      rw [drains.refresh] at closes
      have fifth := Refresh.takeover_precharge within (closes_precharge closes)
      subst fifth
      exact ⟨running, override, drains⟩

theorem Drains.refreshes (drains : Drains 5 ddr) (override : ddr.script.override = false)
    (running : clock.reset = false) (bank : Bank) : ddr.refreshes clock bank = true := by
  simp only [WbDdr.refreshes, running, override, drains.refresh]
  rfl

theorem Drains.takesOver (drains : Drains 3 ddr) (override : ddr.script.override = false) :
    ddr.takesOver = true := by
  simp only [WbDdr.takesOver, override, drains.refresh]
  decide

theorem leaves_iff {write : Bool} {bank : Bank} : ddr.leaves clock write bank = true ↔
    clock.drops = false ∧ ddr.cmdPipe2 = true ∧ ddr.s.write = write ∧ ddr.s.bank = bank := by
  simp [WbDdr.leaves, DdrClock.drops]
  tauto

theorem WbDdr.Due.leaves (due : ddr.Due 0 request) (held : clock.drops = false) :
    ddr.leaves clock request.write request.bank = true ∧ ddr.s = request := by
  cases due with
  | now accesses => exact ⟨leaves_iff.mpr ⟨held, accesses, rfl, rfl⟩, rfl⟩

theorem Drains.unpending {count : Nat} (drains : Drains count ddr) (late : 4 ≤ count) :
    ddr.rPending = false := by
  refine Bool.eq_false_iff.mpr fun pending => ?_
  have waits := drains.waits pending
  omega

end ZipVersa.Ddr
