import Mathlib.Data.Nat.Init
import ZipVersa.Ddr.Legality

/-! The data of the writes: the words and masks beside the requests in the pipes, the
shift registers that bring them to the bus in time, and the command words that carry the
masks to the chip. What is read off the bus is left out. -/

set_option autoImplicit false

namespace ZipVersa.Ddr

open Lib

/-- The inputs of a clock with the data and its byte selects. -/
structure WriteClock where
  bus : DdrClock
  data : BitVec 128
  sel : BitVec 16

/-- The registers of the data path. The numbers are the places of `bus_fifo_data`,
`bus_fifo_sel`, `bus_active` and `bus_read`, of which the last ones are not read. -/
structure DataPath where
  rData : BitVec 128
  rSel : BitVec 16
  sData : BitVec 128
  sSel : BitVec 16
  busFifoData0 : BitVec 128
  busFifoData1 : BitVec 128
  busFifoSel0 : BitVec 16
  busFifoSel1 : BitVec 16
  busActive0 : Bool
  busActive1 : Bool
  busRead0 : Bool
  busRead1 : Bool
  oDdrData : BitVec 128
  ddrDm : BitVec 16
  driveDqs0 : Bool
  driveDqs1 : Bool
  driveDqs2 : Bool
  dqsPattern : BitVec 6

def DataPath.step (path : DataPath) (ddr : WbDdr) (clock : WriteClock) : DataPath where
  rData := if ddr.wbStall then path.rData else clock.data
  rSel := if ddr.wbStall then path.rSel else clock.sel
  sData := if ddr.pipeStall then path.sData else path.rData
  sSel :=
    if ddr.pipeStall then path.sSel
    else if ddr.r.write then ~~~path.rSel
    else 0
  busFifoData0 := path.sData
  busFifoData1 := path.busFifoData0
  busFifoSel0 := if !ddr.sPending || ddr.pipeStall then 0 else path.sSel
  busFifoSel1 := path.busFifoSel0
  busActive0 := ddr.cmdPipe2
  busActive1 := path.busActive0
  busRead0 := ddr.cmdPipe2 && !ddr.s.write
  busRead1 := path.busRead0
  oDdrData := path.busFifoData1
  ddrDm :=
    if ddr.busAck1 then path.busFifoSel1
    else if !path.busRead1 then BitVec.allOnes 16
    else 0
  driveDqs0 := (path.busActive1 || path.busActive0) && !(path.busRead1 || path.busRead0)
  driveDqs1 := path.busActive1 && !path.busRead1
  driveDqs2 := (path.busActive1 && !path.busRead1) || path.driveDqs1
  dqsPattern :=
    (if path.busActive1 && !path.busRead1 then 0b10#2 else 0b11#2) ++ 0b10#2 ++
      (if path.busActive1 && !path.busRead1 then 0b10#2 else 0b00#2)

/-! ### The command words -/

def DdrOp.bits : DdrOp → BitVec 3
  | .mrset => 0
  | .refresh => 1
  | .precharge => 2
  | .activate => 3
  | .write => 4
  | .read => 5
  | .zqs => 6
  | .noop => 7

def DdrCmd.bits (cmd : DdrCmd) : BitVec 21 := BitVec.ofBool cmd.csN ++ cmd.op.bits ++ cmd.arg

section Words

variable (ddr : WbDdr) (path : DataPath)

def oDdrCmdA : BitVec 28 :=
  ddr.cmdA.bits ++ BitVec.ofBool path.driveDqs2 ++ path.ddrDm.extractLsb' 11 4 ++
    path.dqsPattern.extractLsb' 4 2

def oDdrCmdB : BitVec 28 :=
  ddr.cmdB.bits ++ BitVec.ofBool path.driveDqs1 ++ path.ddrDm.extractLsb' 7 4 ++
    path.dqsPattern.extractLsb' 2 2

def oDdrCmdC : BitVec 28 :=
  ddr.cmdC.bits ++ BitVec.ofBool path.driveDqs1 ++ path.ddrDm.extractLsb' 4 4 ++
    path.dqsPattern.extractLsb' 2 2

def oDdrCmdD : BitVec 28 :=
  ddr.cmdD.bits ++ BitVec.ofBool path.driveDqs0 ++ path.ddrDm.extractLsb' 0 4 ++
    path.dqsPattern.extractLsb' 0 2

/-- The mask bits of a command word. -/
def maskBits (cmd : BitVec 28) : BitVec 4 := cmd.extractLsb' 2 4

/-- The mask bits of the four words in their order. -/
def carriedMask : BitVec 16 :=
  maskBits (oDdrCmdA ddr path) ++ maskBits (oDdrCmdB ddr path) ++ maskBits (oDdrCmdC ddr path) ++
    maskBits (oDdrCmdD ddr path)

end Words

/-- A mask as the command words cut it up: slots A and B are a bit too low. -/
def sliced (mask : BitVec 16) : BitVec 16 :=
  mask.extractLsb' 11 4 ++ mask.extractLsb' 7 4 ++ mask.extractLsb' 4 4 ++ mask.extractLsb' 0 4

theorem maskBits_word (cmd : DdrCmd) (dqs : Bool) (mask : BitVec 4) (pattern : BitVec 2) :
    maskBits (cmd.bits ++ BitVec.ofBool dqs ++ mask ++ pattern) = mask := by
  apply BitVec.eq_of_getLsbD_eq
  intro i inside
  rw [maskBits, BitVec.getLsbD_extractLsb', decide_eq_true inside, Bool.true_and,
    BitVec.getLsbD_append, if_neg (by omega), BitVec.getLsbD_append, if_pos (by omega)]
  congr 1
  omega

theorem carriedMask_eq (ddr : WbDdr) (path : DataPath) :
    carriedMask ddr path = sliced path.ddrDm := by
  rw [carriedMask, oDdrCmdA, oDdrCmdB, oDdrCmdC, oDdrCmdD, maskBits_word, maskBits_word,
    maskBits_word, maskBits_word, sliced]

theorem sliced_getLsbD (mask : BitVec 16) {i : Nat} (inside : i < 16) :
    (sliced mask).getLsbD i = mask.getLsbD (if i < 8 then i else i - 1) := by
  simp only [sliced, BitVec.getLsbD_append, BitVec.getLsbD_extractLsb']
  grind

/-- The selects of the upper bytes, from the seventh on, are all the same. -/
def Uniform (sel : BitVec 16) : Prop :=
  ∀ i, 7 ≤ i → i < 16 → sel.getLsbD i = sel.getLsbD 7

instance (sel : BitVec 16) : Decidable (Uniform sel) :=
  decidable_of_iff (∀ i : Fin 9, sel.getLsbD (7 + i) = sel.getLsbD 7)
    ⟨fun all i least inside => by
      have bit := all ⟨i - 7, by omega⟩
      rwa [Nat.add_sub_cancel' least] at bit,
    fun uniform i => uniform (7 + i) (Nat.le_add_right _ _) (by omega)⟩

theorem sliced_eq_iff (sel : BitVec 16) : sliced (~~~sel) = ~~~sel ↔ Uniform sel := by
  constructor
  · intro same i least inside
    induction i, least using Nat.le_induction with
    | base => rfl
    | succ i least ih =>
        have bit := congrArg (fun mask : BitVec 16 => mask.getLsbD (i + 1)) same
        simp only [sliced_getLsbD _ inside, if_neg (show ¬ i + 1 < 8 by omega),
          Nat.add_sub_cancel, BitVec.getLsbD_not, decide_eq_true inside,
          decide_eq_true (show i < 16 by omega), Bool.true_and, Bool.not_inj_iff] at bit
        rw [← bit]
        exact ih (by omega)
  · intro uniform
    apply BitVec.eq_of_getLsbD_eq
    intro i inside
    rw [sliced_getLsbD _ inside]
    split
    · rfl
    · next upper =>
        rw [BitVec.getLsbD_not, BitVec.getLsbD_not, decide_eq_true inside,
          decide_eq_true (by omega), uniform i (by omega) inside, uniform (i - 1) (by omega)
          (by omega)]

/-! ### Runs -/

/-- A request with its data. -/
structure Beat where
  request : Request
  data : BitVec 128
  sel : BitVec 16

def WriteClock.beat (clock : WriteClock) : Beat := ⟨clock.bus.request, clock.data, clock.sel⟩

/-- A run with the data path beside it, and the accepted requests that wait for their
access, oldest first. -/
structure WriteRun where
  run : DdrRun
  path : DataPath
  waiting : List Beat

namespace WriteRun

def start (ddr : WbDdr) (path : DataPath) : WriteRun := ⟨.start ddr, path, []⟩

/-- An access is for the request that waits longest. -/
def step (write : WriteRun) (clock : WriteClock) : WriteRun where
  run := write.run.step clock.bus
  path := write.path.step write.run.ddr clock
  waiting :=
    if clock.bus.drops then []
    else (if (write.run.ddr.step clock.bus).cmdD.csN then write.waiting else write.waiting.tail) ++
      (if write.run.ddr.accepts clock.bus then [clock.beat] else [])

/-- The command on the bus is a WRITE. -/
def issues (write : WriteRun) : Bool :=
  !write.run.ddr.cmdD.csN && write.run.ddr.cmdD.op == .write

def mask (write : WriteRun) : BitVec 16 := carriedMask write.run.ddr write.path

/-- The data of the requests in the pipes. -/
structure Carries (write : WriteRun) : Prop where
  tracks : DdrRun.Tracks write.run
  beats : ∃ front, write.waiting = front ++
      (if write.run.ddr.rPending then [⟨write.run.ddr.r, write.path.rData, write.path.rSel⟩] else []) ∧
    (write.run.ddr.sPending = false → front = []) ∧
    (write.run.ddr.sPending = true → ∃ sel, front = [⟨write.run.ddr.s, write.path.sData, sel⟩] ∧
      (write.run.ddr.s.write = true → write.path.sSel = ~~~sel))

variable {write : WriteRun} {clock : WriteClock}

theorem start_carries (ddr : WbDdr) (path : DataPath) (tracks : (DdrRun.start ddr).Tracks)
    (r : ddr.rPending = false) (s : ddr.sPending = false) : (start ddr path).Carries := by
  refine ⟨tracks, [], ?_, fun _ => rfl, fun pending => ?_⟩
  · change [] = [] ++ (if ddr.rPending then _ else [])
    rw [r]
    rfl
  · cases s.symm.trans pending

theorem step_csN (held : clock.bus.drops = false) :
    (write.run.ddr.step clock.bus).cmdD.csN = !write.run.ddr.cmdPipe2 := by
  obtain ⟨running, cyc⟩ := drops_held held
  change (clock.bus.reset || !clock.bus.cyc || !write.run.ddr.cmdPipe2) = _
  rw [running, cyc]
  rfl

theorem step_waiting (drops : clock.bus.drops = false) : (write.step clock).waiting =
    (if write.run.ddr.cmdPipe2 then write.waiting.tail else write.waiting) ++
      (if write.run.ddr.accepts clock.bus then [clock.beat] else []) := by
  change (if clock.bus.drops then _ else _) = _
  rw [drops, if_neg Bool.false_ne_true, step_csN drops]
  cases write.run.ddr.cmdPipe2 <;> rfl

/-- A request in `r` moves on, or stays and keeps others out. -/
theorem Carries.r_step (carries : write.Carries) (drops : clock.bus.drops = false) :
    (if (write.step clock).run.ddr.rPending then
      [(⟨(write.step clock).run.ddr.r, (write.step clock).path.rData,
        (write.step clock).path.rSel⟩ : Beat)] else []) =
      (if write.run.ddr.rPending && write.run.ddr.pipeStall then
        [⟨write.run.ddr.r, write.path.rData, write.path.rSel⟩] else []) ++
      (if write.run.ddr.accepts clock.bus then [clock.beat] else []) := by
  have pending : (write.step clock).run.ddr.rPending =
      (write.run.ddr.accepts clock.bus || (write.run.ddr.rPending && write.run.ddr.pipeStall)) := by
    simp only [WriteRun.step, DdrRun.step_ddr, WbDdr.step, drops, Bool.not_false, Bool.true_and]
  have loaded : (write.step clock).run.ddr.r =
        (if write.run.ddr.wbStall then write.run.ddr.r else clock.bus.request) ∧
      (write.step clock).path.rData =
        (if write.run.ddr.wbStall then write.path.rData else clock.data) ∧
      (write.step clock).path.rSel =
        (if write.run.ddr.wbStall then write.path.rSel else clock.sel) := by
    simp only [WriteRun.step, DdrRun.step_ddr, WbDdr.step, DataPath.step, and_self]
  obtain ⟨request, data, sel⟩ := loaded
  rw [pending, request, data, sel]
  cases taken : write.run.ddr.accepts clock.bus with
  | true =>
      have both := taken
      rw [WbDdr.accepts, Bool.and_eq_true, Bool.not_eq_true'] at both
      have left : (write.run.ddr.rPending && write.run.ddr.pipeStall) = false := by
        cases stays : write.run.ddr.rPending && write.run.ddr.pipeStall with
        | false => rfl
        | true =>
            obtain ⟨first, stalled⟩ := Bool.and_eq_true _ _ ▸ stays
            cases both.2.symm.trans (carries.tracks.piped.full first stalled)
      rw [left, both.2]
      rfl
  | false =>
      rw [Bool.false_or, if_neg Bool.false_ne_true, List.append_nil]
      cases stays : write.run.ddr.rPending && write.run.ddr.pipeStall with
      | false => rfl
      | true =>
          obtain ⟨first, stalled⟩ := Bool.and_eq_true _ _ ▸ stays
          rw [carries.tracks.piped.full first stalled]
          rfl

/-- A clock that drops the requests leaves none. -/
theorem dropped_carries (tracks : DdrRun.Tracks (write.step clock).run)
    (drops : clock.bus.drops = true) : (write.step clock).Carries := by
  have cleared : (write.step clock).run.ddr.rPending = false ∧
      (write.step clock).run.ddr.sPending = false := by
    simp only [WriteRun.step, DdrRun.step_ddr, WbDdr.step, drops, Bool.not_true,
      Bool.false_and, and_self]
  refine ⟨tracks, [], ?_, fun _ => rfl, fun pending => ?_⟩
  · rw [cleared.1]
    exact if_pos drops
  · cases cleared.2.symm.trans pending

/-- The request in `s` waits for its access. -/
theorem Carries.held (carries : write.Carries) (tracks : DdrRun.Tracks (write.step clock).run)
    (drops : clock.bus.drops = false) (stalled : write.run.ddr.pipeStall = true) :
    (write.step clock).Carries := by
  have piped := carries.tracks.piped
  obtain ⟨front, waiting, empty, filled⟩ := carries.beats
  have idle : write.run.ddr.cmdPipe2 = false := by
    have single := piped.single
    rw [piped.pipeStall, Bool.or_eq_true] at stalled
    cases issuing : write.run.ddr.cmdPipe2 with
    | false => rfl
    | true =>
        rcases stalled with first | second
        · exact absurd ⟨first, issuing⟩ single.2.1
        · exact absurd ⟨second, issuing⟩ single.2.2
  have kept : (write.step clock).run.ddr.sPending = write.run.ddr.sPending ∧
      (write.step clock).run.ddr.s = write.run.ddr.s ∧
      (write.step clock).path.sData = write.path.sData ∧
      (write.step clock).path.sSel = write.path.sSel := by
    simp only [WriteRun.step, DdrRun.step_ddr, WbDdr.step, DataPath.step, drops, stalled,
      piped.moves, Bool.not_true, Bool.not_false, Bool.true_and, Bool.false_eq_true,
      if_true, if_false, and_self]
  obtain ⟨pending, s, data, sel⟩ := kept
  have arrives := carries.r_step drops
  rw [stalled, Bool.and_true] at arrives
  refine ⟨tracks, front, ?_, by rwa [pending], by rwa [pending, s, data, sel]⟩
  rw [step_waiting drops, idle, if_neg Bool.false_ne_true, waiting, List.append_assoc]
  exact congrArg (front ++ ·) arrives.symm

/-- The request in `r` moves on to `s`, whose access is issued or which was empty. -/
theorem Carries.moved (carries : write.Carries) (tracks : DdrRun.Tracks (write.step clock).run)
    (drops : clock.bus.drops = false) (stalled : write.run.ddr.pipeStall = false) :
    (write.step clock).Carries := by
  have piped := carries.tracks.piped
  obtain ⟨front, waiting, empty, filled⟩ := carries.beats
  have moved : (write.step clock).run.ddr.sPending = write.run.ddr.rPending ∧
      (write.step clock).run.ddr.s = write.run.ddr.r ∧
      (write.step clock).path.sData = write.path.rData ∧
      (write.step clock).path.sSel =
        (if write.run.ddr.r.write then ~~~write.path.rSel else 0) := by
    simp only [WriteRun.step, DdrRun.step_ddr, WbDdr.step, DataPath.step, drops, stalled,
      piped.moves, Bool.not_false, Bool.true_and, Bool.false_eq_true, if_true, if_false,
      and_self]
  obtain ⟨pending, s, data, sel⟩ := moved
  have popped : (if write.run.ddr.cmdPipe2 then write.waiting.tail else write.waiting) =
      if write.run.ddr.rPending then
        [⟨write.run.ddr.r, write.path.rData, write.path.rSel⟩] else [] := by
    have issuing : write.run.ddr.sPending = write.run.ddr.cmdPipe2 := by
      rw [piped.sPending, ← piped.pipeStall, stalled, Bool.false_or]
    rw [waiting, ← issuing]
    cases second : write.run.ddr.sPending with
    | false => rw [empty second, if_neg Bool.false_ne_true, List.nil_append]
    | true =>
        obtain ⟨_, only, _⟩ := filled second
        rw [only, if_pos rfl]
        rfl
  have arrives := carries.r_step drops
  rw [stalled, Bool.and_false, if_neg Bool.false_ne_true, List.nil_append] at arrives
  refine ⟨tracks, _, (step_waiting drops).trans (congrArg₂ (· ++ ·) popped arrives.symm), ?_, ?_⟩
  · intro none
    rw [← pending, none, if_neg Bool.false_ne_true]
  · intro some
    rw [pending] at some
    rw [some, if_pos rfl, s, data, sel]
    exact ⟨write.path.rSel, rfl, fun writes => by rw [writes, if_pos rfl]⟩

theorem Carries.step (carries : write.Carries)
    (obeys : write.run.ddr.accepts clock.bus = true →
      ∀ request ∈ write.run.accepted.drop write.run.acks, request.write = clock.bus.we) :
    (write.step clock).Carries := by
  have tracks := carries.tracks.step obeys
  cases drops : clock.bus.drops with
  | true => exact dropped_carries tracks drops
  | false =>
      cases stalled : write.run.ddr.pipeStall with
      | true => exact carries.held tracks drops stalled
      | false => exact carries.moved tracks drops stalled

theorem clocked_run (clocks : List WriteClock) :
    (clocked step write clocks).run = clocked DdrRun.step write.run (clocks.map WriteClock.bus) := by
  induction clocks generalizing write with
  | nil => rfl
  | cons clock rest ih => rw [clocked_cons, ih, List.map_cons, clocked_cons]; rfl

theorem Carries.after {clocks : List WriteClock} (carries : write.Carries)
    (obeys : write.run.Obeys (clocks.map WriteClock.bus)) : (clocked WriteRun.step write clocks).Carries := by
  induction clocks generalizing write with
  | nil => exact carries
  | cons clock rest ih => exact ih (carries.step obeys.1) obeys.2

/-- Two clocks after a WRITE its data is on the bus. -/
theorem Carries.masked (carries : write.Carries) (issued : (write.step clock).issues = true)
    (next last : WriteClock) : ∃ beat rest, write.waiting = beat :: rest ∧
      beat.request.write = true ∧
      (((write.step clock).step next).step last).path.driveDqs1 = true ∧
      (((write.step clock).step next).step last).path.oDdrData = beat.data ∧
      (((write.step clock).step next).step last).path.ddrDm =
        if next.bus.drops then BitVec.allOnes 16 else ~~~beat.sel := by
  have piped := carries.tracks.piped
  obtain ⟨front, waiting, _, filled⟩ := carries.beats
  obtain ⟨⟨held, accesses⟩, writes⟩ :
      (clock.bus.drops = false ∧ write.run.ddr.cmdPipe2 = true) ∧ write.run.ddr.s.write = true := by
    rw [issues, WriteRun.step, DdrRun.step_ddr, Bool.and_eq_true, Bool.not_eq_true', beq_iff_eq]
      at issued
    obtain ⟨active, op⟩ := issued
    change (clock.bus.reset || !clock.bus.cyc || !write.run.ddr.cmdPipe2) = false at active
    rw [Bool.or_eq_false_iff, Bool.not_eq_false'] at active
    refine ⟨active, ?_⟩
    change (if write.run.ddr.s.write then DdrOp.write else .read) = .write at op
    cases direction : write.run.ddr.s.write with
    | true => rfl
    | false =>
        rw [direction] at op
        cases op
  have pending : write.run.ddr.sPending = true := by
    rw [piped.sPending, accesses, Bool.or_true]
  have free : write.run.ddr.pipeStall = false := by
    have single := piped.single
    rw [piped.pipeStall, Bool.or_eq_false_iff]
    refine ⟨Bool.eq_false_iff.mpr fun first => ?_, Bool.eq_false_iff.mpr fun second => ?_⟩
    · exact single.2.1 ⟨first, accesses⟩
    · exact single.2.2 ⟨second, accesses⟩
  obtain ⟨sel, only, complement⟩ := filled pending
  refine ⟨⟨write.run.ddr.s, write.path.sData, sel⟩, _, by rw [waiting, only]; rfl, writes, ?_, rfl, ?_⟩
  · change (write.run.ddr.cmdPipe2 && !(write.run.ddr.cmdPipe2 && !write.run.ddr.s.write)) = true
    rw [accesses, writes]
    rfl
  · change (if ((write.step clock).step next).run.ddr.busAck1 then
      (if !write.run.ddr.sPending || write.run.ddr.pipeStall then 0 else write.path.sSel)
      else if !(write.run.ddr.cmdPipe2 && !write.run.ddr.s.write) then BitVec.allOnes 16 else 0) = _
    have acks : ((write.step clock).step next).run.ddr.busAck1 = !next.bus.drops := by
      simp only [WriteRun.step, DdrRun.step_ddr, WbDdr.step, held, accesses, Bool.not_false,
        Bool.and_true]
    rw [acks, pending, free, accesses, writes, complement writes]
    cases next.bus.drops <;> rfl

end WriteRun

open WriteRun

/-- For every WRITE, the data two clocks later is that of its request, and the mask the
command words carry is the complement of its selects under just these conditions. -/
theorem write_masked_iff (r s : Request) (rNxt sNxt : Row × Bank) (path : DataPath)
    (clocks : List WriteClock) (clock next last : WriteClock)
    (obeys : (DdrRun.start (.initial r s rNxt sNxt)).Obeys (clocks.map WriteClock.bus))
    (issued : ((clocked step (start (.initial r s rNxt sNxt) path) clocks).step clock).issues = true) :
    ∃ beat rest, (clocked step (start (.initial r s rNxt sNxt) path) clocks).waiting = beat :: rest ∧
      beat.request.write = true ∧
      (clocked step (start (.initial r s rNxt sNxt) path)
        (clocks ++ [clock, next, last])).path.driveDqs1 = true ∧
      ((clocked step (start (.initial r s rNxt sNxt) path)
          (clocks ++ [clock, next, last])).path.oDdrData = beat.data ∧
        (clocked step (start (.initial r s rNxt sNxt) path)
          (clocks ++ [clock, next, last])).mask = ~~~beat.sel ↔
        Uniform beat.sel ∧ (next.bus.drops = false ∨ beat.sel = 0)) := by
  have carries := (start_carries (.initial r s rNxt sNxt) path DdrRun.initial_tracks rfl rfl).after obeys
  obtain ⟨beat, rest, waiting, writes, driven, data, dm⟩ := carries.masked issued next last
  rw [clocked_append]
  refine ⟨beat, rest, waiting, writes, driven, ?_⟩
  rw [clocked_cons, clocked_cons, clocked_cons, clocked_nil, mask, carriedMask_eq, data, dm]
  rw [and_iff_right rfl]
  cases next.bus.drops with
  | false => rw [if_neg Bool.false_ne_true, sliced_eq_iff, and_iff_left (.inl rfl)]
  | true =>
      have full : sliced (BitVec.allOnes 16) = BitVec.allOnes 16 := by decide
      rw [if_pos rfl, full]
      constructor
      · intro same
        have none : beat.sel = 0 := by
          rw [← BitVec.not_not (b := beat.sel), ← same]
          rfl
        exact ⟨fun i _ _ => by rw [none]; simp, .inr none⟩
      · rintro ⟨_, up | none⟩
        · cases up
        · rw [none]
          rfl

/-! ### One write -/

/-- A clock without data. -/
def bare (clock : DdrClock) : WriteClock := ⟨clock, 0, 0⟩

/-- A write of one byte to the first bank. -/
def byteWrite (sel : BitVec 16) : WriteClock := ⟨{ read 0 0 with we := true }, 0, sel⟩

def resting : List WriteClock := List.replicate 96765 (bare idle)

def emptyPath : DataPath := ⟨0, 0, 0, 0, 0, 0, 0, 0, false, false, false, false, 0, 0, false, false, false, 0⟩

/-- The write waits for its row, and two clocks later its command is on the bus. -/
def oneWrite (sel : BitVec 16) : List WriteClock := [byteWrite sel, bare held, bare held]

theorem one_write_obeys (sel : BitVec 16) :
    (DdrRun.start powerUp).Obeys ((resting ++ oneWrite sel).map WriteClock.bus) := by
  refine @DdrRun.direction_obeys (DdrRun.start powerUp) true _ ?_ fun _ member => nomatch member
  intro clock member asks
  rw [List.map_append, resting, List.map_replicate] at member
  rcases List.mem_append.mp member with waiting | writing
  · rw [List.eq_of_mem_replicate waiting] at asks
    cases asks
  · rcases List.mem_cons.mp writing with rfl | later
    · rfl
    · rw [List.eq_of_mem_replicate (n := 2) later] at asks
      cases asks

section OneWrite

variable {write : WriteRun} (ready : write.run.ddr.core = idling (.finished, .waiting 5) false false)

include ready

theorem ready_core (clocks : List WriteClock) :
    (clocked step write clocks).run.ddr.core =
      (clocked WbDdr.step (idling (.finished, .waiting 5) false false)
        (clocks.map WriteClock.bus)).core := by
  rw [clocked_run, DdrRun.clocked_ddr, core_clocked, ready]

theorem one_write_issues (sel : BitVec 16) :
    ((clocked step write (oneWrite sel)).step (bare held)).issues = true := by
  have accesses : (clocked step write (oneWrite sel)).run.ddr.cmdPipe2 = true :=
    congrArg WbDdr.cmdPipe2 (ready_core ready (oneWrite sel))
  have writes : (clocked step write (oneWrite sel)).run.ddr.s.write = true :=
    congrArg (fun ddr => ddr.s.write) (ready_core ready (oneWrite sel))
  change (!(false || !true || !(clocked step write (oneWrite sel)).run.ddr.cmdPipe2) &&
    (if (clocked step write (oneWrite sel)).run.ddr.s.write then DdrOp.write else .read) ==
      .write) = true
  rw [accesses, writes]
  rfl

theorem one_write_waiting (empty : write.waiting = []) (sel : BitVec 16) :
    (clocked step write (oneWrite sel)).waiting = [(byteWrite sel).beat] := by
  have first : write.run.ddr.cmdPipe2 = false ∧ write.run.ddr.wbStall = false :=
    ⟨congrArg WbDdr.cmdPipe2 ready, congrArg WbDdr.wbStall ready⟩
  have second : (write.step (byteWrite sel)).run.ddr.cmdPipe2 = false :=
    congrArg WbDdr.cmdPipe2 (ready_core ready [byteWrite sel])
  have third : ((write.step (byteWrite sel)).step (bare held)).run.ddr.cmdPipe2 = false :=
    congrArg WbDdr.cmdPipe2 (ready_core ready [byteWrite sel, bare held])
  rw [oneWrite, clocked_cons, clocked_cons, clocked_cons, clocked_nil, step_waiting rfl, third,
    step_waiting rfl, second, step_waiting rfl, first.1, empty, WbDdr.accepts, first.2]
  rfl

end OneWrite

/-- Power-up and the reset, with nothing asked for. -/
def rested : WriteRun := clocked step (start powerUp emptyPath) resting

theorem rested_ready : rested.run.ddr.core = idling (.finished, .waiting 5) false false := by
  rw [rested, clocked_run, DdrRun.clocked_ddr, resting, List.map_replicate]
  exact first_wait_core

/-- Nothing waits after a clock without a cycle. -/
theorem rested_waiting : rested.waiting = [] := by
  have last : resting = List.replicate 96764 (bare idle) ++ [bare idle] := List.replicate_succ'
  rw [rested, last, clocked_append, clocked_cons, clocked_nil]
  rfl

theorem one_write_state (sel : BitVec 16) :
    ((clocked step (start powerUp emptyPath) (resting ++ oneWrite sel)).step (bare held)).issues =
        true ∧
      (clocked step (start powerUp emptyPath) (resting ++ oneWrite sel)).waiting =
        [(byteWrite sel).beat] := by
  rw [clocked_append]
  exact ⟨one_write_issues rested_ready sel, one_write_waiting rested_ready rested_waiting sel⟩

/-- The upper nine bytes of a word are written, and the others are masked. -/
theorem upper_bytes_written :
    (clocked step (start powerUp emptyPath) (resting ++ oneWrite 0xff80 ++
      [bare held, bare held, bare held])).mask = ~~~0xff80 := by
  obtain ⟨issued, waiting⟩ := one_write_state 0xff80
  obtain ⟨beat, rest, oldest, _, _, masked⟩ := write_masked_iff idle.request idle.request (0, 1) (0, 1)
    emptyPath (resting ++ oneWrite 0xff80) (bare held) (bare held) (bare held)
    (one_write_obeys 0xff80) issued
  obtain ⟨rfl, _⟩ := List.cons.inj (waiting.symm.trans oldest)
  exact (masked.mpr ⟨by decide, .inl rfl⟩).2

/-- The byte at the top alone is not written: every mask bit is set. -/
theorem top_byte_not_written :
    (DdrRun.start powerUp).Obeys ((resting ++ oneWrite 0x8000).map WriteClock.bus) ∧
      ((clocked step (start powerUp emptyPath) (resting ++ oneWrite 0x8000)).step
        (bare held)).issues = true ∧
      (clocked step (start powerUp emptyPath) (resting ++ oneWrite 0x8000)).waiting =
        [(byteWrite 0x8000).beat] ∧
      (clocked step (start powerUp emptyPath) (resting ++ oneWrite 0x8000 ++
        [bare held, bare held, bare held])).mask = 0xffff ∧
      ~~~(byteWrite 0x8000).beat.sel = 0x7fff := by
  obtain ⟨issued, waiting⟩ := one_write_state 0x8000
  have obeys := one_write_obeys 0x8000
  refine ⟨obeys, issued, waiting, ?_, by decide⟩
  have carries := (start_carries powerUp emptyPath DdrRun.initial_tracks rfl rfl).after obeys
  obtain ⟨beat, rest, oldest, _, _, _, dm⟩ := carries.masked issued (bare held) (bare held)
  obtain ⟨rfl, _⟩ := List.cons.inj (waiting.symm.trans oldest)
  rw [clocked_append, clocked_cons, clocked_cons, clocked_cons, clocked_nil, mask, carriedMask_eq, dm]
  decide

end ZipVersa.Ddr
