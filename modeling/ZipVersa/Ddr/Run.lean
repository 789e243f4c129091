import Mathlib.Data.List.Basic
import ZipVersa.Lib.Clocked
import ZipVersa.Ddr.Phases

/-! A run of the controller with the chip beside it: which requests the bus
counts on, which accesses they got, and how soon. -/

set_option autoImplicit false

namespace ZipVersa.Ddr

open Lib

/-- The requests, accesses and acknowledgements are those since `i_wb_cyc` rose. -/
structure DdrRun where
  ddr : WbDdr
  chip : Dram.Chip Bank Row (BitVec 10)
  accepted : List Request
  accesses : List Command
  acks : Nat

namespace DdrRun

/-- Before the first clock. -/
def start (ddr : WbDdr) : DdrRun where
  ddr := ddr
  chip := ⟨fun _ => none, []⟩
  accepted := []
  accesses := []
  acks := 0

/-- `i_reset` resets the chip too. -/
def step (run : DdrRun) (clock : DdrClock) : DdrRun :=
  let next := run.ddr.step clock
  let chip := run.chip.applyAll next.commands
  if clock.drops then
    { start next with chip := ⟨if clock.reset then fun _ => none else chip.rows, []⟩ }
  else
    { ddr := next
      chip := { chip with waiting := chip.waiting ++ run.ddr.accepted clock }
      accepted := run.accepted ++ run.ddr.accepted clock
      accesses := run.accesses ++ next.commands.filter Dram.Command.isAccess
      acks := run.acks + next.wbAck.toNat }

/-- At every clock of a run, with the clocks after it. -/
def Always (holds : DdrRun → DdrClock → List DdrClock → Prop) (run : DdrRun) :
    List DdrClock → Prop
  | [] => True
  | clock :: rest => holds run clock rest ∧ Always holds (run.step clock) rest

/-- The direction of the requests changes only with none outstanding. -/
def Obeys (run : DdrRun) (clocks : List DdrClock) : Prop :=
  run.Always (fun run clock _ => run.ddr.accepts clock = true →
    ∀ request ∈ run.accepted.drop run.acks, request.write = clock.we) clocks

/-- Whenever `need_refresh` is about to rise, the request in `r` needs no
precharge, or `i_wb_cyc` falls before its access would come. -/
def Calm (run : DdrRun) (clocks : List DdrClock) : Prop :=
  run.Always (fun run clock rest => run.ddr.endangered = true → Broken 4 (clock :: rest)) clocks

/-- The chip may be told every command it is told. -/
def Legal (run : DdrRun) (clocks : List DdrClock) : Prop :=
  run.Always (fun run clock _ => run.chip.AllowsAll (run.ddr.step clock).commands) clocks

/-- The accesses are those of the first requests in their order, and no more
are acknowledged. -/
def Ordered (run : DdrRun) : Prop :=
  run.accesses <+: run.accepted.map Dram.Request.command ∧ run.acks ≤ run.accesses.length

variable {run : DdrRun} {clock : DdrClock}

theorem step_dropped (drops : clock.drops = true) : run.step clock =
    { start (run.ddr.step clock) with
      chip := ⟨if clock.reset then fun _ => none
        else (run.chip.applyAll (run.ddr.step clock).commands).rows, []⟩ } :=
  if_pos drops

theorem step_held (held : clock.drops = false) : run.step clock =
    { ddr := run.ddr.step clock
      chip :=
        { rows := (run.chip.applyAll (run.ddr.step clock).commands).rows
          waiting := (run.chip.applyAll (run.ddr.step clock).commands).waiting ++
            run.ddr.accepted clock }
      accepted := run.accepted ++ run.ddr.accepted clock
      accesses := run.accesses ++
        (run.ddr.step clock).commands.filter Dram.Command.isAccess
      acks := run.acks + (run.ddr.step clock).wbAck.toNat } :=
  if_neg (Bool.not_eq_true _ ▸ held)

theorem step_ddr : (run.step clock).ddr = run.ddr.step clock := by
  cases drops : clock.drops with
  | true => rw [step_dropped drops]; rfl
  | false => rw [step_held drops]

theorem always_append {holds : DdrRun → DdrClock → List DdrClock → Prop}
    {first second : List DdrClock} (always : run.Always holds (first ++ second)) :
    (clocked step run first).Always holds second := by
  induction first generalizing run with
  | nil => exact always
  | cons clock rest ih => exact ih always.2

theorem obeys_left {first second : List DdrClock} (obeys : run.Obeys (first ++ second)) :
    run.Obeys first := by
  induction first generalizing run with
  | nil => trivial
  | cons clock rest ih => exact ⟨obeys.1, ih obeys.2⟩

theorem clocked_ddr (clocks : List DdrClock) :
    (clocked step run clocks).ddr = clocked WbDdr.step run.ddr clocks := by
  induction clocks generalizing run with
  | nil => rfl
  | cons clock rest ih => rw [clocked_cons, clocked_cons, ih, step_ddr]

/-- A bus with requests of one kind only keeps its direction. -/
theorem direction_obeys {write : Bool} {clocks : List DdrClock}
    (same : ∀ clock ∈ clocks, clock.stb = true → clock.we = write)
    (before : ∀ request ∈ run.accepted, request.write = write) : run.Obeys clocks := by
  induction clocks generalizing run with
  | nil => trivial
  | cons clock rest ih =>
      have now : run.ddr.accepts clock = true → clock.we = write := fun accepts =>
        same clock (.head _) (Bool.and_eq_true _ _ ▸ accepts).1
      refine ⟨?_, ih (fun other member => same other (.tail _ member)) ?_⟩
      · intro accepts request member
        rw [before request (List.mem_of_mem_drop member), now accepts]
      · intro request member
        cases drops : clock.drops with
        | true =>
            rw [step_dropped drops] at member
            cases member
        | false =>
            rw [step_held drops] at member
            rcases List.mem_append.mp member with earlier | added
            · exact before request earlier
            · unfold WbDdr.accepted at added
              split_ifs at added with accepts
              · rw [List.mem_singleton.mp added]
                exact now accepts
              · cases added

/-! ### The accesses -/

theorem accesses_step {ddr : WbDdr} (upkeep : Upkeep ddr) (running : clock.reset = false) :
    (ddr.step clock).commands.filter Dram.Command.isAccess =
      if ddr.cmdPipe2 && clock.cyc then [ddr.s.command] else [] := by
  have slotA : (ddr.nextCmdA clock).commands.filter Dram.Command.isAccess = [] := by
    rw [WbDdr.cmdA_commands running]
    split_ifs
    · simp [upkeep_access upkeep.maintenanceOp]
    · rfl
  have slotB : (ddr.nextCmdB clock).commands.filter Dram.Command.isAccess = [] := by
    rw [WbDdr.cmdB_commands running]
    split_ifs <;> rfl
  have slotC : (ddr.nextCmdC clock).commands.filter Dram.Command.isAccess = [] := by
    rw [WbDdr.cmdC_commands running]
    split_ifs <;> rfl
  rw [commands_step, WbDdr.slots, List.filter_append, List.filter_append, List.filter_append, slotA, slotB, slotC,
    WbDdr.cmdD_commands running]
  split_ifs <;> rfl

theorem waiting_step {ddr : WbDdr} {chip : Dram.Chip Bank Row (BitVec 10)} (upkeep : Upkeep ddr)
    (running : clock.reset = false) : (chip.applyAll (ddr.step clock).commands).waiting =
      if ddr.cmdPipe2 && clock.cyc then chip.waiting.tail else chip.waiting := by
  have slotA : (chip.applyAll (ddr.nextCmdA clock).commands).waiting = chip.waiting := by
    rw [WbDdr.cmdA_commands running]
    split_ifs
    · exact upkeep_waiting upkeep.maintenanceOp false ddr.maintenanceArg
    · rfl
  rw [commands_step, Dram.Chip.applyAll_append, slots_waiting running, slotA]

/-- The books of the bus beside the registers. -/
structure Tracks (run : DdrRun) : Prop where
  piped : Piped run.ddr
  upkeep : Upkeep run.ddr
  waiting : run.chip.waiting = run.ddr.queue
  served : ∃ served, run.accepted = served ++ run.ddr.queue ∧
    run.accesses = served.map Dram.Request.command
  acks : run.accesses.length =
    run.acks + run.ddr.busAck0.toNat + run.ddr.busAck1.toNat + run.ddr.busAck2.toNat

theorem Tracks.ordered (tracks : Tracks run) : run.Ordered := by
  obtain ⟨served, accepted, accesses⟩ := tracks.served
  constructor
  · rw [accepted, accesses, List.map_append]
    exact List.prefix_append _ _
  · rw [tracks.acks]
    omega

/-- The requests in the pipes are outstanding. -/
theorem Tracks.outstanding (tracks : Tracks run) {request : Request}
    (member : request ∈ run.ddr.queue) : request ∈ run.accepted.drop run.acks := by
  obtain ⟨served, accepted, accesses⟩ := tracks.served
  have long : run.acks ≤ served.length := by
    have answered := tracks.ordered.2
    rwa [accesses, List.length_map] at answered
  rw [accepted, List.drop_append_of_le_length long]
  exact List.mem_append_right _ member

theorem Tracks.step (tracks : Tracks run)
    (obeys : run.ddr.accepts clock = true →
      ∀ request ∈ run.accepted.drop run.acks, request.write = clock.we) :
    Tracks (run.step clock) := by
  have piped : Piped (run.ddr.step clock) := by
    refine tracks.piped.step fun accepts pending => ?_
    exact obeys accepts run.ddr.r (tracks.outstanding (by simp [WbDdr.queue, pending]))
  have upkeep : Upkeep (run.ddr.step clock) := tracks.upkeep.step
  cases drops : clock.drops with
  | true =>
      rw [step_dropped drops]
      have nothing := @queue_dropped run.ddr clock drops
      have unanswered : 0 = 0 + (run.ddr.step clock).busAck0.toNat +
          (run.ddr.step clock).busAck1.toNat + (run.ddr.step clock).busAck2.toNat := by
        simp [WbDdr.step, drops]
      exact ⟨piped, upkeep, nothing.symm, ⟨[], nothing.symm, rfl⟩, unanswered⟩
  | false =>
      obtain ⟨running, cyc⟩ := drops_held drops
      have queue := tracks.piped.queue_step drops
      obtain ⟨served, accepted, accesses⟩ := tracks.served
      have issued := @accesses_step clock run.ddr tracks.upkeep running
      rw [cyc, Bool.and_true] at issued
      have counted : (run.ddr.step clock).busAck0 = run.ddr.cmdPipe2 ∧
          (run.ddr.step clock).busAck1 = run.ddr.busAck0 ∧
          (run.ddr.step clock).busAck2 = run.ddr.busAck1 ∧
          (run.ddr.step clock).wbAck = run.ddr.busAck2 := by
        simp [WbDdr.step, drops]
      rw [step_held drops]
      refine ⟨piped, upkeep, ?_, ?_, ?_⟩
      · dsimp only
        rw [waiting_step tracks.upkeep running, cyc, Bool.and_true, tracks.waiting]
        exact queue
      · dsimp only
        rw [issued]
        cases accessing : run.ddr.cmdPipe2 with
        | false =>
            rw [accessing] at queue
            exact ⟨served, by rw [accepted, List.append_assoc, ← queue]; rfl,
              by rw [accesses]; exact List.append_nil _⟩
        | true =>
            obtain ⟨rest, oldest⟩ := tracks.piped.oldest accessing
            rw [accessing, oldest] at queue
            refine ⟨served ++ [run.ddr.s], ?_, ?_⟩
            · rw [accepted, oldest, ← queue, List.append_assoc, List.append_assoc]
              rfl
            · rw [accesses, List.map_append]
              rfl
      · dsimp only
        rw [List.length_append, tracks.acks, issued, counted.1, counted.2.1, counted.2.2.1,
          counted.2.2.2]
        cases run.ddr.cmdPipe2 <;> simp <;> omega

/-! ### How soon -/

/-- Clocks until the next access. -/
def front (ddr : WbDdr) : Nat :=
  if ddr.cmdPipe0 then 3 else if ddr.cmdPipe1 then 2 else if ddr.cmdPipe2 then 1 else 4

/-- Clocks until so many requests of the pipes have theirs. -/
def late (ddr : WbDdr) : Nat → Nat
  | 0 => 0
  | 1 => front ddr
  | _ => front ddr + 3

theorem late_zero {ddr : WbDdr} {count : Nat} (zero : late ddr count = 0) : count = 0 := by
  match count with
  | 0 => rfl
  | 1 => simp only [late, front] at zero; grind
  | _ + 2 => simp only [late] at zero; omega

/-- A request that moves to `s` has its access within three clocks. -/
theorem front_moves {ddr : WbDdr} (piped : Piped ddr) (held : clock.drops = false)
    (free : ddr.pipeStall = false) (pending : ddr.rPending = true) :
    front (ddr.step clock) ≤ 3 := by
  have moves : ddr.moves = true := by simp [piped.moves, free]
  cases turn : ddr.turn <;>
    simp [front, WbDdr.step, WbDdr.starts, held, moves, pending, turn]

theorem late_step {ddr : WbDdr} (piped : Piped ddr) (held : clock.drops = false) {count : Nat}
    (some : 0 < count) (within : count ≤ ddr.queue.length) :
    late (ddr.step clock) (count - ddr.cmdPipe2.toNat) + 1 ≤ late ddr count := by
  have moving := @front_moves clock ddr piped held
  obtain ⟨single, -, pipeStall, sPending, dirStall, -, -, -⟩ := piped
  have stays : ddr.pipeStall = true →
      front (ddr.step clock) = if ddr.cmdPipe0 then 2 else 1 := by
    intro stalled
    simp only [front, WbDdr.step, WbDdr.starts, WbDdr.moves]
    grind
  have size : ddr.queue.length = ddr.sPending.toNat + ddr.rPending.toNat := by
    cases second : ddr.sPending <;> cases first : ddr.rPending <;> simp [WbDdr.queue, first, second]
  have most := Bool.toNat_le ddr.sPending
  have more := Bool.toNat_le ddr.rPending
  obtain rfl | rfl : count = 1 ∨ count = 2 := by omega
  · cases accessing : ddr.cmdPipe2 with
    | true => simp only [late, front]; grind
    | false =>
        simp only [late, Bool.toNat_false, Nat.sub_zero]
        grind [front]
  · cases accessing : ddr.cmdPipe2 with
    | true =>
        simp only [late, Bool.toNat_true]
        grind [front]
    | false =>
        simp only [late, Bool.toNat_false, Nat.sub_zero]
        grind [front]

theorem queue_small (ddr : WbDdr) : ddr.queue.length ≤ 2 := by
  cases second : ddr.sPending <;> cases first : ddr.rPending <;> simp [WbDdr.queue, first, second]

theorem late_most (ddr : WbDdr) (count : Nat) (within : count ≤ 2) : late ddr count ≤ 7 := by
  have most : front ddr ≤ 4 := by
    unfold front
    split_ifs <;> decide
  match count with
  | 0 => exact Nat.zero_le 7
  | 1 => exact Nat.le_trans most (by decide)
  | 2 => exact Nat.add_le_add_right most 3

theorem accesses_length (tracks : Tracks run) (held : clock.drops = false) :
    (run.step clock).accesses.length = run.accesses.length + run.ddr.cmdPipe2.toNat := by
  obtain ⟨running, cyc⟩ := drops_held held
  rw [step_held held]
  dsimp only
  rw [accesses_step tracks.upkeep running, List.length_append, cyc, Bool.and_true]
  cases run.ddr.cmdPipe2 <;> rfl

theorem Tracks.length (tracks : Tracks run) :
    run.accepted.length = run.accesses.length + run.ddr.queue.length := by
  obtain ⟨served, accepted, accesses⟩ := tracks.served
  rw [accepted, accesses, List.length_append, List.length_map]

/-- While `i_wb_cyc` is up the first requests get their accesses in time. -/
theorem served_within {clocks : List DdrClock} (tracks : Tracks run) (obeys : run.Obeys clocks)
    (held : ∀ clock ∈ clocks, clock.drops = false) {count : Nat} (known : count ≤ run.accepted.length)
    (enough : late run.ddr (count - run.accesses.length) ≤ clocks.length) :
    count ≤ (clocked step run clocks).accesses.length := by
  induction clocks generalizing run with
  | nil => exact Nat.sub_eq_zero_iff_le.mp (late_zero (Nat.le_zero.mp enough))
  | cons clock rest ih =>
      have now := held clock (.head _)
      have longer := accesses_length tracks now
      refine ih (tracks.step obeys.1) obeys.2 (fun other member => held other (.tail _ member)) ?_ ?_
      · refine Nat.le_trans known ?_
        rw [step_held now, List.length_append]
        exact Nat.le_add_right _ _
      · rw [step_ddr, longer, Nat.sub_add_eq]
        rcases Nat.eq_zero_or_pos (count - run.accesses.length) with done | some
        · rw [done, Nat.zero_sub]
          exact Nat.zero_le _
        · have within : count - run.accesses.length ≤ run.ddr.queue.length := by
            have total := tracks.length
            omega
          have sooner := late_step tracks.piped now some within
          rw [List.length_cons] at enough
          omega

theorem Tracks.after {clocks : List DdrClock} (tracks : Tracks run) (obeys : run.Obeys clocks) :
    Tracks (clocked DdrRun.step run clocks) := by
  induction clocks generalizing run with
  | nil => exact tracks
  | cons clock rest ih => exact ih (tracks.step obeys.1) obeys.2

/-- Three clocks after an access comes its acknowledgement. -/
theorem answered_within (tracks : Tracks run) {first second third : DdrClock}
    (held : first.drops = false ∧ second.drops = false ∧ third.drops = false) :
    run.accesses.length ≤ (clocked step run [first, second, third]).acks := by
  have acks := tracks.acks
  simp only [clocked_cons, clocked_nil, step_held held.1, step_held held.2.1, step_held held.2.2,
    WbDdr.step, held.1, held.2.1, held.2.2, Bool.not_false, Bool.true_and]
  omega

/-- Ten clocks of `i_wb_cyc` answer every request accepted before. -/
theorem Tracks.prompt {clocks : List DdrClock} (tracks : Tracks run) (obeys : run.Obeys clocks)
    (held : ∀ clock ∈ clocks, clock.drops = false) (long : 10 ≤ clocks.length) :
    run.accepted.length ≤ (clocked DdrRun.step run clocks).acks := by
  have cut := List.take_append_drop (clocks.length - 3) clocks
  have size : (clocks.drop (clocks.length - 3)).length = 3 := by
    rw [List.length_drop]
    omega
  obtain ⟨first, second, third, last⟩ := List.length_eq_three.mp size
  rw [last] at cut
  rw [← cut] at obeys held ⊢
  rw [clocked_append]
  have early := obeys_left obeys
  refine Nat.le_trans (served_within tracks early ?_ (Nat.le_refl _) ?_)
    (answered_within (tracks.after early) ?_)
  · exact fun clock member => held clock (List.mem_append_left _ member)
  · refine Nat.le_trans (late_most run.ddr _ ?_) ?_
    · have total := tracks.length
      have small := queue_small run.ddr
      omega
    · rw [List.length_take]
      omega
  · exact ⟨held first (by simp), held second (by simp), held third (by simp)⟩

end DdrRun

end ZipVersa.Ddr
