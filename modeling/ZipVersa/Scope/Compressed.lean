import ZipVersa.Lib.Clocked
import ZipVersa.Lib.RunLength
import ZipVersa.Scope.Reader

/-! The data side of `wbscopc`, which records a run of equal samples as one sample and
a count. -/

set_option autoImplicit false

namespace ZipVersa.Scope

open Lib

/-- The inputs at a clock, with those that come from the configuration register. -/
structure CompressedClock (hb : Nat) where
  iCe : Bool
  iTrigger : Bool
  iData : BitVec 31
  dwReset : Bool
  dwManualTrigger : Bool
  dwDisableTrigger : Bool
  brHoldoff : BitVec hb

/-- The registers of `wbscopc` on the data clock; `lg` is `LGMEM` and `hb` is
`HOLDOFFBITS`. -/
structure Compressed (lg hb : Nat) where
  drTriggered : Bool
  drPrimed : Bool
  holdoffCounter : BitVec hb
  drStopped : Bool
  drStopPipe : BitVec 5
  ckAddr : BitVec 31
  qdData : BitVec 31
  drForceWrite : Bool
  drForceInhibit : Bool
  drRunTimeout : Bool
  newData : Bool
  immAdr : Bool
  immVal : BitVec 31
  lstAdr : Bool
  lstVal : BitVec 31
  recordCe : Bool
  rData : BitVec 32
  waddr : BitVec lg
  mem : BitVec lg → BitVec 32

namespace Compressed

variable {lg hb : Nat} (maxStep : BitVec 31)

def dwTrigger (scope : Compressed lg hb) (clock : CompressedClock hb) : Bool :=
  scope.drPrimed && ((clock.iTrigger && !clock.dwDisableTrigger) || clock.dwManualTrigger)

/-- The word to write is a sample, not a count. -/
def flagged (scope : Compressed lg hb) : Bool :=
  scope.newData || scope.drForceWrite || scope.drStopped

/-- Of two counts in a row the first is not written. -/
def writes (scope : Compressed lg hb) : Bool := !scope.lstAdr || !scope.immAdr

def nextStopped (scope : Compressed lg hb) (clock : CompressedClock hb) : Bool :=
  if !scope.drTriggered || clock.dwReset then false
  else if clock.iCe && !scope.drStopped then
    if 1 < hb then clock.brHoldoff ≤ scope.holdoffCounter
    else clock.iCe && scope.dwTrigger clock
  else scope.drStopped

def nextForceWrite (scope : Compressed lg hb) (clock : CompressedClock hb) : Bool :=
  if scope.drRunTimeout && !scope.drForceWrite && !scope.drForceInhibit then true
  else (scope.dwTrigger clock && !scope.drTriggered) || !scope.drPrimed

def step (scope : Compressed lg hb) (clock : CompressedClock hb) : Compressed lg hb where
  drTriggered :=
    if clock.dwReset then false
    else scope.drTriggered || (clock.iCe && scope.dwTrigger clock)
  drPrimed :=
    if clock.dwReset then false
    else if scope.recordCe then scope.drPrimed || scope.waddr == BitVec.allOnes lg
    else scope.drPrimed
  holdoffCounter :=
    if clock.dwReset then 0
    else if clock.iCe && scope.drTriggered && !scope.drStopped then scope.holdoffCounter + 1
    else scope.holdoffCounter
  drStopped := scope.nextStopped clock
  drStopPipe :=
    if clock.dwReset then 0
    else if clock.iCe then scope.drStopPipe <<< 1 ||| (BitVec.ofBool scope.drStopped).setWidth 5
    else scope.drStopPipe
  ckAddr :=
    if clock.dwReset then 0
    else if clock.iCe then (if scope.flagged then 0 else scope.ckAddr + 1)
    else scope.ckAddr
  qdData := if clock.iCe then clock.iData else scope.qdData
  drForceWrite :=
    if clock.dwReset then true
    else if clock.iCe then scope.nextForceWrite clock
    else scope.drForceWrite
  drForceInhibit :=
    if clock.dwReset then false
    else if clock.iCe then scope.drForceWrite
    else scope.drForceInhibit
  drRunTimeout :=
    if clock.dwReset then true
    else if clock.iCe then maxStep - 1 ≤ scope.ckAddr
    else scope.drRunTimeout
  newData :=
    if clock.dwReset then true
    else if clock.iCe then clock.iData != scope.qdData
    else scope.newData
  immAdr :=
    if clock.dwReset then true
    else if clock.iCe then !scope.flagged
    else scope.immAdr
  immVal :=
    if clock.dwReset then 0
    else if clock.iCe then (if scope.flagged then scope.qdData else scope.ckAddr)
    else scope.immVal
  lstAdr :=
    if clock.dwReset then true
    else if clock.iCe then scope.immAdr
    else scope.lstAdr
  lstVal :=
    if clock.dwReset then 0
    else if clock.iCe then scope.immVal
    else scope.lstVal
  recordCe := clock.iCe && scope.writes && !scope.drStopPipe.getLsbD 2
  rData :=
    if scope.writes then BitVec.ofBool scope.lstAdr ++ scope.lstVal
    else BitVec.ofBool false ++ scope.qdData
  waddr :=
    if clock.dwReset then 0
    else if scope.recordCe then scope.waddr + 1
    else scope.waddr
  mem := if scope.recordCe then Function.update scope.mem scope.waddr scope.rData else scope.mem

/-- The word set out to be written at a clock; it is in memory a clock later. -/
def records (scope : Compressed lg hb) (clock : CompressedClock hb) : List (BitVec 32) :=
  if clock.iCe && scope.writes && !scope.drStopPipe.getLsbD 2 then
    [BitVec.ofBool scope.lstAdr ++ scope.lstVal]
  else []

/-- The sample taken in at a clock. -/
def samples (_ : Compressed lg hb) (clock : CompressedClock hb) : List (BitVec 31) :=
  if clock.iCe then [clock.iData] else []

end Compressed

/-- A word as `writevcd` counts it. -/
def wordToken (word : BitVec 32) : Token (BitVec 31) :=
  if word.msb then .again (steps word).toNat else .sample (word.setWidth 31)

/-- A count, or a sample. -/
def stageToken (adr : Bool) (val : BitVec 31) : Token (BitVec 31) :=
  if adr then .again val.toNat else .sample val

theorem wordToken_append (adr : Bool) (val : BitVec 31) :
    wordToken (BitVec.ofBool adr ++ val) = stageToken adr val := by
  have low : (BitVec.ofBool adr ++ val).setWidth 31 = val := BitVec.setWidth_append_eq_right
  have high : (BitVec.ofBool adr ++ val).msb = adr := by
    have top : (BitVec.ofBool adr ++ val).msb = if 1 = 0 then val.msb else (BitVec.ofBool adr).msb :=
      BitVec.msb_append
    rw [top, if_neg nofun]
    cases adr <;> rfl
  have count : (steps (BitVec.ofBool adr ++ val)).toNat = val.toNat := by
    have mask : (0x7fffffff : BitVec 32).toNat = 2 ^ 31 - 1 := rfl
    rw [steps, BitVec.toNat_and, mask, Nat.and_two_pow_sub_one_eq_mod, ← BitVec.toNat_setWidth, low]
  rw [wordToken, stageToken, high, low, count]

namespace Compressed

variable {lg hb : Nat} {maxStep : BitVec 31}

def imm (scope : Compressed lg hb) : Token (BitVec 31) := stageToken scope.immAdr scope.immVal

def lst (scope : Compressed lg hb) : Token (BitVec 31) := stageToken scope.lstAdr scope.lstVal

/-- The words recorded and those still in the pipe. -/
def pending (scope : Compressed lg hb) (words : List (BitVec 32)) : List (Token (BitVec 31)) :=
  words.map wordToken ++ (if scope.writes then [scope.lst, scope.imm] else [scope.imm])

/-- The count in the pipe. -/
structure Counting (maxStep : BitVec 31) (scope : Compressed lg hb) : Prop where
  next : scope.ckAddr = scope.immVal + 1
  free : scope.drForceInhibit = false
  timeout : scope.drRunTimeout = decide (maxStep - 1 ≤ scope.immVal)
  bounded : scope.immVal ≤ maxStep
  full : scope.immVal = maxStep → scope.drForceWrite = true

/-- What is pending expands to all but the newest of the samples. -/
structure Running (maxStep : BitVec 31) (words : List (BitVec 32)) (seen : List (BitVec 31))
    (tokens : List (Token (BitVec 31))) (scope : Compressed lg hb) : Prop where
  pending : scope.pending words = .again 0 :: tokens
  seen : seen = Token.expand 0 tokens ++ [scope.qdData]
  same : scope.newData = false → tokens ≠ [] ∧ tokens.foldl Token.latest 0 = scope.qdData
  fresh : scope.immAdr = false → scope.ckAddr = 0
  counting : scope.immAdr = true → tokens = [] ∨ Counting maxStep scope

/-- The word that the pipe gives up at the next clock, if it is recorded. -/
def leaving (scope : Compressed lg hb) : List (BitVec 32) :=
  if scope.writes then [BitVec.ofBool scope.lstAdr ++ scope.lstVal] else []

theorem pending_eq (scope : Compressed lg hb) (words : List (BitVec 32)) :
    scope.pending words = (words ++ scope.leaving).map wordToken ++ [scope.imm] := by
  rw [pending, leaving, List.map_append]
  cases scope.writes with
  | false => rw [if_neg Bool.false_ne_true, if_neg Bool.false_ne_true, List.map_nil, List.append_nil]
  | true =>
      rw [if_pos rfl, if_pos rfl, List.map_cons, wordToken_append, List.map_nil, List.append_assoc]
      rfl

theorem records_open {scope : Compressed lg hb} {clock : CompressedClock hb}
    (enabled : clock.iCe = true) (recording : scope.drStopPipe.getLsbD 2 = false) :
    scope.records clock = scope.leaving := by
  rw [records, enabled, recording, Bool.true_and, Bool.not_false, Bool.and_true, leaving]

section Step

variable {scope : Compressed lg hb} {clock : CompressedClock hb}
variable (released : clock.dwReset = false)

include released in
theorem running_idle {words : List (BitVec 32)} {seen : List (BitVec 31)}
    {tokens : List (Token (BitVec 31))} (idle : clock.iCe = false)
    (running : Running maxStep words seen tokens scope) :
    Running maxStep words seen tokens (scope.step maxStep clock) := by
  have held : scope.step maxStep clock =
      { scope with
        drTriggered := (scope.step maxStep clock).drTriggered
        drPrimed := (scope.step maxStep clock).drPrimed
        drStopped := (scope.step maxStep clock).drStopped
        recordCe := (scope.step maxStep clock).recordCe
        rData := (scope.step maxStep clock).rData
        waddr := (scope.step maxStep clock).waddr
        mem := (scope.step maxStep clock).mem } := by
    simp only [step, released, idle, Bool.false_eq_true, if_false, Bool.false_and]
  rw [held]
  refine ⟨running.pending, running.seen, running.same, running.fresh, fun count => ?_⟩
  rcases running.counting count with none | ⟨next, free, timeout, bounded, full⟩
  · exact .inl none
  · exact .inr ⟨next, free, timeout, bounded, full⟩

variable (enabled : clock.iCe = true)

include released enabled

theorem step_lst : (scope.step maxStep clock).lst = scope.imm := by
  simp only [lst, imm, step, released, enabled, Bool.false_eq_true, if_false, if_true]

theorem step_immAdr : (scope.step maxStep clock).immAdr = !scope.flagged := by
  simp only [step, released, enabled, Bool.false_eq_true, if_false, if_true]

theorem step_imm : (scope.step maxStep clock).imm =
    if scope.flagged then .sample scope.qdData else .again scope.ckAddr.toNat := by
  simp only [imm, step, released, enabled, Bool.false_eq_true, if_false, if_true, stageToken]
  cases scope.flagged <;> rfl

theorem step_writes : (scope.step maxStep clock).writes = (!scope.immAdr || scope.flagged) := by
  simp only [writes, step, released, enabled, Bool.false_eq_true, if_false, if_true, Bool.not_not]

theorem step_newData : (scope.step maxStep clock).newData = (clock.iData != scope.qdData) := by
  simp only [step, released, enabled, Bool.false_eq_true, if_false, if_true]

/-- A sample goes into the pipe behind what is pending. -/
theorem running_sample {words : List (BitVec 32)} {seen : List (BitVec 31)}
    {tokens : List (Token (BitVec 31))} (running : Running maxStep words seen tokens scope)
    (flagged : scope.flagged = true) :
    Running maxStep (words ++ scope.leaving) (seen ++ [clock.iData])
      (tokens ++ [.sample scope.qdData]) (scope.step maxStep clock) := by
  have newest : (scope.step maxStep clock).qdData = clock.iData := by
    simp only [step, enabled, if_true]
  have cleared : (scope.step maxStep clock).ckAddr = 0 := by
    simp only [step, released, enabled, flagged, Bool.false_eq_true, if_false, if_true]
  have before := running.pending
  rw [pending_eq] at before
  refine ⟨?_, ?_, fun same => ⟨List.concat_ne_nil _ _, ?_⟩, fun _ => cleared, fun count => ?_⟩
  · rw [pending, step_writes released enabled, flagged, Bool.or_true, if_pos rfl,
      step_lst released enabled, step_imm released enabled, flagged, if_pos rfl,
      ← List.cons_append, ← before, List.append_assoc]
    rfl
  · rw [running.seen, Token.expand_append, newest]
    rfl
  · rw [step_newData released enabled, bne_eq_false_iff_eq] at same
    rw [List.foldl_append, newest, same]
    rfl
  · rw [step_immAdr released enabled, flagged] at count
    cases count

/-- What a clock without a sample adds to the count. -/
theorem counting_step (inhibited : scope.drForceWrite = false)
    (free : scope.drForceInhibit = false ∨ scope.ckAddr ≠ maxStep)
    (timeout : scope.ckAddr = maxStep → scope.drRunTimeout = true) (flagged : scope.flagged = false)
    (bounded : scope.ckAddr ≤ maxStep) : Counting maxStep (scope.step maxStep clock) where
  next := by
    simp only [step, released, enabled, flagged, Bool.false_eq_true, if_false, if_true]
  free := by
    simp only [step, released, enabled, inhibited, Bool.false_eq_true, if_false, if_true]
  timeout := by
    simp only [step, released, enabled, flagged, Bool.false_eq_true, if_false, if_true]
  bounded := by
    simp only [step, released, enabled, flagged, Bool.false_eq_true, if_false, if_true]
    exact bounded
  full := by
    intro full
    simp only [step, released, enabled, flagged, Bool.false_eq_true, if_false, if_true] at full
    simp only [step, released, enabled, nextForceWrite, timeout full, inhibited,
      free.resolve_right (not_not_intro full), Bool.false_eq_true, if_false, if_true,
      Bool.not_false, Bool.and_self]

theorem running_counted {words : List (BitVec 32)} {seen : List (BitVec 31)}
    {tokens longer : List (Token (BitVec 31))} (running : Running maxStep words seen tokens scope)
    (flagged : scope.flagged = false)
    (contents : (scope.step maxStep clock).pending (words ++ scope.leaving) = .again 0 :: longer)
    (filled : longer ≠ []) (ends : longer.foldl Token.latest 0 = scope.qdData)
    (expanded : Token.expand 0 longer = Token.expand 0 tokens ++ [scope.qdData])
    (counting : Counting maxStep (scope.step maxStep clock)) :
    Running maxStep (words ++ scope.leaving) (seen ++ [clock.iData]) longer
      (scope.step maxStep clock) := by
  have newest : (scope.step maxStep clock).qdData = clock.iData := by
    simp only [step, enabled, if_true]
  refine ⟨contents, by rw [running.seen, expanded, newest], fun same => ⟨filled, ?_⟩,
    fun sample => ?_, fun _ => .inr counting⟩
  · rw [step_newData released enabled, bne_eq_false_iff_eq] at same
    rw [ends, newest, same]
  · rw [step_immAdr released enabled, flagged] at sample
    cases sample

omit released enabled in
theorem unflagged (flagged : scope.flagged = false) :
    scope.newData = false ∧ scope.drForceWrite = false := by
  rw [Compressed.flagged, Bool.or_eq_false_iff, Bool.or_eq_false_iff] at flagged
  exact flagged.1

/-- After a sample a count begins. -/
theorem running_first (positive : maxStep ≠ 0) {words : List (BitVec 32)} {seen : List (BitVec 31)}
    {tokens : List (Token (BitVec 31))} (running : Running maxStep words seen tokens scope)
    (flagged : scope.flagged = false) (kind : scope.immAdr = false) :
    Running maxStep (words ++ scope.leaving) (seen ++ [clock.iData]) (tokens ++ [.again 0])
      (scope.step maxStep clock) := by
  obtain ⟨unchanged, unforced⟩ := unflagged flagged
  obtain ⟨_, latest⟩ := running.same unchanged
  have start := running.fresh kind
  have before := running.pending
  rw [pending_eq] at before
  refine running_counted released enabled running flagged ?_ (List.concat_ne_nil _ _) ?_ ?_ ?_
  · rw [pending, step_writes released enabled, kind, Bool.not_false, Bool.true_or, if_pos rfl,
      step_lst released enabled, step_imm released enabled, flagged, start,
      ← List.cons_append, ← before, List.append_assoc]
    rfl
  · rw [List.foldl_append, latest]
    rfl
  · rw [Token.expand_append, latest]
    rfl
  · refine counting_step released enabled unforced (.inr ?_) (fun full => ?_) flagged ?_
    · exact fun full => positive (full.symm.trans start)
    · exact absurd (full.symm.trans start) positive
    · rw [start]
      exact BitVec.le_def.mpr (Nat.zero_le _)

/-- After a count comes the next number, and it is the one that will be written. -/
theorem running_more {words : List (BitVec 32)} {seen : List (BitVec 31)}
    {front : List (Token (BitVec 31))}
    (running : Running maxStep words seen (front ++ [scope.imm]) scope)
    (flagged : scope.flagged = false) (kind : scope.immAdr = true)
    (shown : (words ++ scope.leaving).map wordToken = .again 0 :: front) :
    Running maxStep (words ++ scope.leaving) (seen ++ [clock.iData])
      (front ++ [.again scope.ckAddr.toNat]) (scope.step maxStep clock) := by
  obtain ⟨unchanged, unforced⟩ := unflagged flagged
  obtain ⟨some, latest⟩ := running.same unchanged
  obtain ⟨next, free, timeout, bounded, full⟩ := (running.counting kind).resolve_left some
  have below : scope.immVal.toNat < maxStep.toNat := by
    refine Nat.lt_of_le_of_ne (BitVec.le_def.mp bounded) fun same => ?_
    exact absurd (unforced.symm.trans (full (BitVec.eq_of_toNat_eq same))) nofun
  have more : scope.ckAddr.toNat = scope.immVal.toNat + 1 := by
    have := maxStep.isLt
    rw [next, BitVec.toNat_add_of_lt]
    · rfl
    · change scope.immVal.toNat + 1 < 2 ^ 31
      omega
  have count : scope.imm = .again scope.immVal.toNat := by
    rw [imm, kind]
    rfl
  rw [count, List.foldl_append] at latest
  refine running_counted released enabled running flagged ?_ (List.concat_ne_nil _ _) ?_ ?_ ?_
  · rw [pending, step_writes released enabled, kind, flagged, Bool.not_true, Bool.or_false,
      if_neg Bool.false_ne_true, step_imm released enabled, flagged, shown]
    rfl
  · rw [List.foldl_append]
    exact latest
  · rw [more, Token.expand_longer, count]
    exact congrArg _ (congrArg (fun value => [value]) latest)
  · refine counting_step released enabled unforced (.inl free) (fun full => ?_) flagged ?_
    · rw [timeout, decide_eq_true_iff, ← full, next, BitVec.add_sub_cancel]
      exact BitVec.le_refl _
    · exact BitVec.le_def.mpr (more ▸ below)

theorem running_step (positive : maxStep ≠ 0) {words : List (BitVec 32)} {seen : List (BitVec 31)}
    {tokens : List (Token (BitVec 31))} (running : Running maxStep words seen tokens scope) :
    ∃ later, Running maxStep (words ++ scope.leaving) (seen ++ [clock.iData]) later
      (scope.step maxStep clock) := by
  cases flagged : scope.flagged with
  | true => exact ⟨_, running_sample released enabled running flagged⟩
  | false =>
      cases kind : scope.immAdr with
      | false => exact ⟨_, running_first released enabled positive running flagged kind⟩
      | true =>
          have before := running.pending
          rw [pending_eq] at before
          obtain ⟨_, ends⟩ | ⟨front, shown, rfl⟩ := List.append_eq_cons_iff.mp before
          · have none := (List.cons.inj ends).2
            exact absurd none.symm (running.same (unflagged flagged).1).1
          · exact ⟨_, running_more released enabled running flagged kind shown⟩

end Step

/-- The pipe of `dr_stopped` fills up from below. -/
structure Stopping (scope : Compressed lg hb) : Prop where
  triggered : scope.drStopped = true → scope.drTriggered = true
  first : scope.drStopPipe.getLsbD 0 = true → scope.drStopped = true
  second : scope.drStopPipe.getLsbD 1 = true → scope.drStopPipe.getLsbD 0 = true
  third : scope.drStopPipe.getLsbD 2 = true → scope.drStopPipe.getLsbD 1 = true

section Stop

variable {scope : Compressed lg hb} {clock : CompressedClock hb}
variable (released : clock.dwReset = false)

include released

theorem Stopping.stays (stopping : Stopping scope) (stopped : scope.drStopped = true) :
    (scope.step maxStep clock).drStopped = true := by
  change scope.nextStopped clock = true
  rw [nextStopped, released, stopping.triggered stopped, stopped, Bool.not_true, Bool.and_false]
  rfl

theorem stopPipe_getLsbD (i : Nat) (small : i < 4) :
    (scope.step maxStep clock).drStopPipe.getLsbD (i + 1) =
      if clock.iCe then scope.drStopPipe.getLsbD i else scope.drStopPipe.getLsbD (i + 1) := by
  simp only [step, released, Bool.false_eq_true, if_false]
  cases clock.iCe with
  | false => rfl
  | true =>
      rw [if_pos rfl, if_pos rfl, BitVec.getLsbD_or, BitVec.getLsbD_shiftLeft,
        BitVec.getLsbD_setWidth, BitVec.getLsbD_ofBool]
      simp [show i + 1 < 5 by omega]

theorem stopPipe_zero :
    (scope.step maxStep clock).drStopPipe.getLsbD 0 =
      if clock.iCe then scope.drStopped else scope.drStopPipe.getLsbD 0 := by
  simp only [step, released, Bool.false_eq_true, if_false]
  cases clock.iCe with
  | false => rfl
  | true =>
      rw [if_pos rfl, if_pos rfl, BitVec.getLsbD_or, BitVec.getLsbD_shiftLeft,
        BitVec.getLsbD_setWidth, BitVec.getLsbD_ofBool]
      simp

theorem Stopping.step (stopping : Stopping scope) (maxStep : BitVec 31) :
    Stopping (scope.step maxStep clock) where
  triggered := by
    intro stopped
    change scope.nextStopped clock = true at stopped
    have triggered : scope.drTriggered = true := by
      cases untriggered : scope.drTriggered with
      | true => rfl
      | false =>
          rw [nextStopped, untriggered] at stopped
          cases stopped
    simp only [Compressed.step, released, triggered, Bool.false_eq_true, if_false, Bool.true_or]
  first := by
    intro set
    rw [stopPipe_zero released] at set
    cases enabled : clock.iCe with
    | false =>
        rw [enabled] at set
        exact stopping.stays released (stopping.first set)
    | true =>
        rw [enabled] at set
        exact stopping.stays released set
  second := by
    intro set
    rw [stopPipe_getLsbD released 0 (by decide)] at set
    rw [stopPipe_zero released]
    cases enabled : clock.iCe with
    | false => rw [enabled] at set; exact stopping.second set
    | true => rw [enabled] at set; exact stopping.first set
  third := by
    intro set
    rw [stopPipe_getLsbD released 1 (by decide)] at set
    rw [stopPipe_getLsbD released 0 (by decide)]
    cases enabled : clock.iCe with
    | false => rw [enabled] at set; exact stopping.third set
    | true => rw [enabled] at set; exact stopping.second set

/-- Once recording has stopped nothing more is recorded. -/
theorem Stopping.closed (stopping : Stopping scope) (closed : scope.drStopPipe.getLsbD 2 = true) :
    (scope.step maxStep clock).drStopPipe.getLsbD 2 = true := by
  rw [stopPipe_getLsbD released 1 (by decide)]
  cases clock.iCe with
  | false => exact closed
  | true => exact stopping.third closed

end Stop

/-- The words are an initial part of a record of an initial part of the samples. -/
def Recorded (words : List (BitVec 32)) (seen : List (BitVec 31)) : Prop :=
  ∃ tokens, words.map wordToken <+: .again 0 :: tokens ∧ Token.expand 0 tokens <+: seen

theorem Running.recorded {words : List (BitVec 32)} {seen : List (BitVec 31)}
    {tokens : List (Token (BitVec 31))} {scope : Compressed lg hb}
    (running : Running maxStep words seen tokens scope) : Recorded words seen :=
  ⟨tokens, running.pending ▸ List.prefix_append _ _, running.seen ▸ List.prefix_append _ _⟩

theorem Recorded.append {words : List (BitVec 32)} {seen : List (BitVec 31)}
    (recorded : Recorded words seen) (more : List (BitVec 31)) : Recorded words (seen ++ more) := by
  obtain ⟨tokens, shown, expanded⟩ := recorded
  exact ⟨tokens, shown, expanded.trans (List.prefix_append _ _)⟩

structure Capturing (maxStep : BitVec 31) (words : List (BitVec 32)) (seen : List (BitVec 31))
    (scope : Compressed lg hb) : Prop where
  stopping : Stopping scope
  recorded : Recorded words seen
  running : scope.drStopPipe.getLsbD 2 = false →
    ∃ tokens, Running maxStep words seen tokens scope

theorem Capturing.step (positive : maxStep ≠ 0) {words : List (BitVec 32)}
    {seen : List (BitVec 31)} {scope : Compressed lg hb} {clock : CompressedClock hb}
    (released : clock.dwReset = false) (capturing : Capturing maxStep words seen scope) :
    Capturing maxStep (words ++ scope.records clock) (seen ++ scope.samples clock)
      (scope.step maxStep clock) := by
  have stopping := capturing.stopping.step released maxStep
  cases gate : scope.drStopPipe.getLsbD 2 with
  | true =>
      have silent : scope.records clock = [] := by
        rw [records, gate, Bool.not_true, Bool.and_false]
        rfl
      refine ⟨stopping, silent ▸ ?_, fun open' => ?_⟩
      · rw [List.append_nil]
        exact capturing.recorded.append _
      · rw [capturing.stopping.closed released gate] at open'
        cases open'
  | false =>
      obtain ⟨tokens, running⟩ := capturing.running gate
      cases enabled : clock.iCe with
      | false =>
          have silent : scope.records clock = [] := by
            rw [records, enabled]
            rfl
          have none : scope.samples clock = [] := by
            rw [samples, enabled]
            rfl
          rw [silent, none, List.append_nil, List.append_nil]
          have later := running_idle released enabled running
          exact ⟨stopping, later.recorded, fun _ => ⟨_, later⟩⟩
      | true =>
          have taken : scope.samples clock = [clock.iData] := by
            rw [samples, enabled]
            rfl
          rw [records_open enabled gate, taken]
          obtain ⟨longer, later⟩ := running_step released enabled positive running
          exact ⟨stopping, later.recorded, fun _ => ⟨_, later⟩⟩

theorem Capturing.run (positive : maxStep ≠ 0) {words : List (BitVec 32)} {seen : List (BitVec 31)}
    {scope : Compressed lg hb} {inputs : List (CompressedClock hb)}
    (released : ∀ clock ∈ inputs, clock.dwReset = false)
    (capturing : Capturing maxStep words seen scope) :
    Capturing maxStep (words ++ observed (Compressed.step maxStep) records scope inputs)
      (seen ++ observed (Compressed.step maxStep) samples scope inputs)
      (clocked (Compressed.step maxStep) scope inputs) := by
  induction inputs generalizing words seen scope with
  | nil =>
      rw [observed, observed, List.append_nil, List.append_nil]
      exact capturing
  | cons clock inputs ih =>
      rw [observed, observed, ← List.append_assoc, ← List.append_assoc]
      exact ih (fun other member => released other (.tail _ member))
        (capturing.step positive (released clock (.head _)))

/-- At the end of a reset the pipe holds one count, and it is the first word. -/
theorem capturing_reset (maxStep : BitVec 31) (scope : Compressed lg hb) {clock : CompressedClock hb}
    (reset : clock.dwReset = true) :
    Capturing maxStep [] [(scope.step maxStep clock).qdData] (scope.step maxStep clock) := by
  have running : Running maxStep [] [(scope.step maxStep clock).qdData] []
      (scope.step maxStep clock) := by
    refine ⟨?_, rfl, fun same => ?_, fun sample => ?_, fun _ => .inl rfl⟩
    · simp only [pending, writes, lst, imm, step, reset, if_true, List.map_nil, List.nil_append]
      rfl
    · simp only [step, reset, if_true] at same
      cases same
    · simp only [step, reset, if_true] at sample
      cases sample
  have empty : (scope.step maxStep clock).drStopPipe = 0 := by
    simp only [step, reset, if_true]
  refine ⟨⟨fun stopped => ?_, ?_, ?_, ?_⟩, running.recorded, fun _ => ⟨_, running⟩⟩
  · change scope.nextStopped clock = true at stopped
    rw [nextStopped, reset, Bool.or_true] at stopped
    cases stopped
  all_goals
    intro set
    rw [empty] at set
    cases set

/-- What has been sampled ends on the sample in `qd_data`. -/
theorem samples_last (maxStep : BitVec 31) (scope : Compressed lg hb) (inputs : List (CompressedClock hb)) :
    ∃ front, scope.qdData :: observed (step maxStep) samples scope inputs =
      front ++ [(clocked (step maxStep) scope inputs).qdData] := by
  induction inputs generalizing scope with
  | nil => exact ⟨[], rfl⟩
  | cons clock inputs ih =>
      obtain ⟨front, same⟩ := ih (scope.step maxStep clock)
      cases enabled : clock.iCe with
      | false =>
          have held : (scope.step maxStep clock).qdData = scope.qdData := by
            simp only [step, enabled, Bool.false_eq_true, if_false]
          refine ⟨front, ?_⟩
          rw [observed, samples, enabled, if_neg Bool.false_ne_true, List.nil_append, ← held, same,
            clocked_cons]
      | true =>
          have newest : (scope.step maxStep clock).qdData = clock.iData := by
            simp only [step, enabled, if_true]
          refine ⟨scope.qdData :: front, ?_⟩
          rw [observed, samples, enabled, if_pos rfl, List.singleton_append, ← newest, same,
            clocked_cons]
          rfl

/-- A run of words that starts with a sample expands to a stretch of what was sampled. -/
theorem Recorded.run {words run : List (BitVec 32)} {seen : List (BitVec 31)}
    (recorded : Recorded words seen) (within : run <:+: words) {first : BitVec 32}
    {rest : List (BitVec 32)} (shape : run = first :: rest) (value : first.msb = false)
    (last : BitVec 31) : Token.expand last (run.map wordToken) <:+: seen := by
  obtain ⟨tokens, shown, expanded⟩ := recorded
  obtain ⟨before, after, rfl⟩ := within
  obtain ⟨later, shown⟩ := shown
  have leading : run.map wordToken = .sample (first.setWidth 31) :: rest.map wordToken := by
    rw [shape, List.map_cons, wordToken, value, if_neg Bool.false_ne_true]
  rw [List.map_append, List.map_append] at shown
  cases before with
  | nil =>
      rw [List.map_nil, List.nil_append, leading] at shown
      cases shown
  | cons word before =>
      have body : before.map wordToken ++ run.map wordToken ++ (after.map wordToken ++ later) =
          tokens := by
        rw [List.map_cons, List.cons_append, List.cons_append, List.cons_append] at shown
        rw [← (List.cons.inj shown).2, List.append_assoc, List.append_assoc, List.append_assoc]
      have inner := Token.expand_infix 0 (before.map wordToken) (run.map wordToken)
        (after.map wordToken ++ later)
      rw [body, leading] at inner
      rw [leading]
      exact inner.trans expanded.isInfix

def sampling (value : BitVec 31) : CompressedClock 20 := ⟨true, false, value, false, false, true, 0⟩

def powerUp : Compressed 1 20 :=
  ⟨false, false, 0, false, 0, 0, 0, false, false, false, false, true, 0, true, 0, false, 0, 0,
    fun _ => 0⟩

/-- Two samples, then five more of one value. -/
def shortCapture : List (CompressedClock 20) := [8, 9, 5, 5, 5, 5, 5, 5, 5, 6, 6, 6].map sampling

end Compressed
end ZipVersa.Scope
