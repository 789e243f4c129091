import ZipVersa.Ddr.Idle

/-! The commands of `wbddrsdram` are ones the chip may be told, from power-up
on, unless a refresh comes upon a request that waits for its precharge. -/

set_option autoImplicit false

namespace ZipVersa.Ddr

open Lib

namespace DdrRun

variable {run : DdrRun} {clock : DdrClock} {r s : Request} {rNxt sNxt : Row × Bank}

theorem initial_tracks : Tracks (start (.initial r s rNxt sNxt)) where
  piped := initial_piped r s rNxt sNxt
  upkeep := by constructor <;> rfl
  waiting := rfl
  served := ⟨[], rfl, rfl⟩
  acks := rfl

theorem initial_phase (clocks : List DdrClock) :
    Phase (.initial r s rNxt sNxt) (fun _ => none) clocks :=
  .resetting rfl rfl initial_resting rfl

theorem phase_step {rest : List DdrClock} (phase : Phase run.ddr run.chip.rows (clock :: rest))
    (tracks : Tracks run) (calm : run.ddr.endangered = true → Broken 4 (clock :: rest)) :
    run.chip.AllowsAll (run.ddr.step clock).commands ∧
      Phase (run.step clock).ddr (run.step clock).chip.rows rest := by
  cases reset : clock.reset with
  | true =>
      have drops : clock.drops = true := by simp [DdrClock.drops, reset]
      have silent : (run.ddr.step clock).commands = [] := by
        simp [WbDdr.commands, DdrCmd.commands, WbDdr.step, WbDdr.nextCmdA, WbDdr.nextCmdB,
          WbDdr.nextCmdC, WbDdr.nextCmdD, reset]
      rw [silent, step_dropped drops, reset]
      exact ⟨trivial, Phase.reset reset⟩
  | false =>
      have oldest : run.ddr.cmdPipe2 = true → ∃ rest, run.chip.waiting = run.ddr.s :: rest := by
        intro accessing
        rw [tracks.waiting]
        exact tracks.piped.oldest accessing
      obtain ⟨allowed, next⟩ := phase.step tracks.piped tracks.upkeep reset calm oldest
      refine ⟨allowed, ?_⟩
      have rows : (run.step clock).chip.rows =
          (run.chip.applyAll (run.ddr.step clock).commands).rows := by
        cases drops : clock.drops with
        | true => rw [step_dropped drops, reset]; rfl
        | false => rw [step_held drops]
      rwa [step_ddr, rows]

/-- A precharge that comes with `need_refresh` has its access in a closed bank. -/
theorem endangered_illegal {first second third fourth : DdrClock} {rest known : List DdrClock}
    (phase : Phase run.ddr run.chip.rows known) (tracks : Tracks run)
    (obeys : run.Obeys (first :: second :: third :: fourth :: rest))
    (endangered : run.ddr.endangered = true)
    (held : ∀ clock ∈ [first, second, third, fourth], clock.drops = false) :
    ¬run.Legal (first :: second :: third :: fourth :: rest) := by
  obtain ⟨takes, starts⟩ := Bool.and_eq_true _ _ ▸ endangered
  obtain ⟨override, drains⟩ := phase.stage.takesOver takes
  have refresh := drains.refresh
  have one := held first (by simp)
  have two := held second (by simp)
  have three := held third (by simp)
  have four := held fourth (by simp)
  -- the request is in `cmd_pipe[0]`, then in `cmd_pipe[1]` when the bus is taken
  have tracks1 := tracks.step obeys.1
  have tracks2 := tracks1.step obeys.2.1
  have tracks3 := tracks2.step obeys.2.2.1
  have piped1 := tracks1.piped
  have piped2 := tracks2.piped
  have piped3 := tracks3.piped
  simp only [step_ddr] at piped1 piped2 piped3
  have started : (run.ddr.step first).cmdPipe0 = true := by simp [WbDdr.step, one, starts]
  have activated := (moves_on piped1 two).1 started
  have free : ((run.ddr.step first).step second).script.override = false ∧
      ((run.ddr.step first).step second).refresh = Refresh.takeover 5 := by
    constructor
    · simp [WbDdr.step, Reset.step, override, (drops_held one).1, (drops_held two).1]
    · simp [WbDdr.step, Reset.step, override, (drops_held one).1, refresh, Refresh.takeover]
  have commands := late_commands piped2 three free.2 free.1 (drops_held three).1 four piped3
    activated
  intro legal
  have last := legal.2.2.2.1
  simp only [step_ddr] at last
  rw [commands] at last
  obtain ⟨-, ⟨row, later, -, opened⟩, -⟩ := last
  cases opened

/-- The precharge is all that can go wrong. -/
theorem legal_calm {clocks : List DdrClock} (phase : Phase run.ddr run.chip.rows clocks)
    (tracks : Tracks run) (obeys : run.Obeys clocks) : run.Legal clocks ↔ run.Calm clocks := by
  induction clocks generalizing run with
  | nil => exact Iff.rfl
  | cons clock rest ih =>
      have stepped := tracks.step obeys.1
      constructor
      · intro legal
        have calm : run.ddr.endangered = true → Broken 4 (clock :: rest) := by
          intro endangered
          rintro ⟨long, held⟩
          obtain ⟨second, third, fourth, later, rfl⟩ : ∃ second third fourth later,
              rest = second :: third :: fourth :: later := by
            match rest, long with
            | second :: third :: fourth :: later, _ => exact ⟨second, third, fourth, later, rfl⟩
          exact endangered_illegal phase tracks obeys endangered held legal
        exact ⟨calm, (ih (phase_step phase tracks calm).2 stepped obeys.2).mp legal.2⟩
      · intro calm
        obtain ⟨allowed, next⟩ := phase_step phase tracks calm.1
        exact ⟨allowed, (ih next stepped obeys.2).mpr calm.2⟩

end DdrRun

open DdrRun

/-- The accesses are those of the accepted requests in order and ten clocks of
`i_wb_cyc` acknowledge each of them; every command is legal in calm runs only. -/
theorem commands_legal_iff (r s : Request) (rNxt sNxt : Row × Bank) (clocks : List DdrClock)
    (obeys : (start (.initial r s rNxt sNxt)).Obeys clocks) :
    ((start (.initial r s rNxt sNxt)).Legal clocks ∧
      ∀ before during after, clocks = before ++ during ++ after →
        (clocked step (start (.initial r s rNxt sNxt)) before).Ordered ∧
          ((∀ clock ∈ during, clock.drops = false) → 10 ≤ during.length →
            (clocked step (start (.initial r s rNxt sNxt)) before).accepted.length ≤
              (clocked step (start (.initial r s rNxt sNxt)) (before ++ during)).acks)) ↔
      (start (.initial r s rNxt sNxt)).Calm clocks := by
  have tracks := @initial_tracks r s rNxt sNxt
  rw [legal_calm (initial_phase clocks) tracks obeys, and_iff_left]
  intro before during after split
  rw [split, List.append_assoc] at obeys
  have started := tracks.after (obeys_left obeys)
  refine ⟨started.ordered, ?_⟩
  intro held long
  rw [clocked_append]
  exact started.prompt (obeys_left (always_append obeys)) held long

/-- The first read after the reset, and the refresh behind it. -/
def firstRead : List DdrClock := read 0 0 :: List.replicate 12 held

theorem idle_core_endangered (clocks : List DdrClock) :
    (clocked WbDdr.step powerUp (List.replicate 96765 idle ++ clocks)).endangered =
      (clocked WbDdr.step (idling (.finished, .waiting 5) false false) clocks).core.endangered := by
  have core (ddr : WbDdr) : ddr.endangered = ddr.core.endangered := rfl
  rw [clocked_append, core, core_clocked, first_wait_core]

theorem idle_obeys {clocks : List DdrClock} (reads : ∀ clock ∈ clocks, clock.we = false) :
    (start powerUp).Obeys (List.replicate 96765 idle ++ clocks) := by
  refine @direction_obeys (start powerUp) false _ ?_ fun _ member => nomatch member
  intro clock member _
  rcases List.mem_append.mp member with waiting | reading
  · rw [List.eq_of_mem_replicate waiting]
    rfl
  · exact reads clock reading

theorem first_read_calm : (start powerUp).Calm (List.replicate 96765 idle ++ firstRead) := by
  have free : ∀ count : Fin 13, (clocked WbDdr.step (idling (.finished, .waiting 5) false false)
      (firstRead.take count)).core.endangered = false := by decide
  refine calm_idle (calm_free fun count within => ?_)
  rw [← clocked_append, clocked_ddr]
  exact (idle_core_endangered _).trans (free ⟨count, within⟩)

theorem first_read_legal : (start powerUp).Legal (List.replicate 96765 idle ++ firstRead) :=
  ((commands_legal_iff idle.request idle.request (0, 1) (0, 1) _
    (idle_obeys (by decide))).mpr first_read_calm).1

/-! ### A refresh that comes upon two reads -/

/-- Row 0 of two banks is opened, then row 1 of both is read; the last read is
accepted with `pre_refresh_stall`. -/
def lateReads : List DdrClock :=
  [read 0 0, held, read 2 0, held, held, read 0 1, read 2 1, held, held]

theorem late_endangered :
    (clocked WbDdr.step powerUp (List.replicate 96765 idle ++ lateReads)).endangered = true := by
  rw [idle_core_endangered]
  decide

/-- The read of row 1 of bank 2 finds the bank closed. -/
theorem late_read_illegal :
    (start powerUp).Obeys
        (List.replicate 96765 idle ++ (lateReads ++ List.replicate 4 held)) ∧
      ¬(start powerUp).Legal
        (List.replicate 96765 idle ++ (lateReads ++ List.replicate 4 held)) := by
  have obeys := @idle_obeys (lateReads ++ List.replicate 4 held) (by decide)
  refine ⟨obeys, fun legal => ?_⟩
  have calm := (legal_calm (initial_phase _) initial_tracks obeys).mp legal
  rw [← List.append_assoc] at calm
  refine (always_append calm).1 ?_ ⟨Nat.le_refl 4, by decide⟩
  rw [clocked_ddr]
  exact late_endangered

end ZipVersa.Ddr
