import ZipVersa.DebugBus.SixBit
import ZipVersa.Lib.Queue

/-! `wbuidleint`, which puts words of its own between the codewords for the
host: one for an interrupt and, on a line that has been quiet for long, one
that tells whether the bus is busy. -/

set_option autoImplicit false

namespace ZipVersa.DebugBus

open Lib

structure IdleInt (idlebits : Nat) where
  intRequest : Bool
  intSent : Bool
  idleCounter : BitVec idlebits
  idleState : Bool
  oStb : Bool
  oCodword : Word

/-- A word that comes out has come in or is one of the circuit's own. -/
inductive Loaded where
  | passed (word : Word)
  | inserted (word : Word)
  deriving DecidableEq, Repr

namespace Loaded

def word : Loaded → Word
  | .passed word => word
  | .inserted word => word

def passes : Loaded → Option Word
  | .passed word => some word
  | .inserted _ => none

def inserts : Loaded → Option Word
  | .passed _ => none
  | .inserted word => some word

end Loaded

namespace IdleInt

variable {idlebits : Nat}

structure Clock where
  iStb : Bool
  iCodword : Word
  iCyc : Bool
  iBusy : Bool
  iInt : Bool
  iTxBusy : Bool
  deriving DecidableEq, Repr

/-- `codword[35:30]`. -/
def kind (codword : Word) : BitVec 6 := codword.extractLsb' 30 6

def cwInterrupt : Word := (4 : BitVec 6) ++ (0 : BitVec 30)

def cwBusbusy : Word := (1 : BitVec 6) ++ (0 : BitVec 30)

def cwIdle : Word := (0 : BitVec 6) ++ (0 : BitVec 30)

def oBusy (idleint : IdleInt idlebits) : Bool := idleint.oStb

def idleExpired (idleint : IdleInt idlebits) : Bool :=
  !idleint.idleState && idleint.idleCounter.msb

/-- The word `o_codword` is loaded with at a clock. -/
def loads (idleint : IdleInt idlebits) (clock : Clock) : Option Loaded :=
  if clock.iStb && !idleint.oBusy then some (.passed clock.iCodword)
  else if !idleint.oStb then
    if idleint.intRequest && !idleint.intSent then some (.inserted cwInterrupt)
    else if idleint.idleExpired then some (.inserted (if clock.iCyc then cwBusbusy else cwIdle))
    else none
  else none

def step (idleint : IdleInt idlebits) (clock : Clock) : IdleInt idlebits where
  intRequest :=
    if idleint.oStb && !clock.iTxBusy && kind idleint.oCodword == 4 then clock.iInt
    else idleint.intRequest || clock.iInt
  idleCounter :=
    if clock.iStb || idleint.oStb || clock.iBusy then 0
    else if !idleint.idleCounter.msb then idleint.idleCounter + 1
    else idleint.idleCounter
  idleState :=
    if idleint.oStb && !clock.iTxBusy && idleint.oCodword.extractLsb' (idlebits - 5) 5 == 0 then true
    else if !idleint.idleCounter.msb then false
    else idleint.idleState
  oStb :=
    if (idleint.loads clock).isSome then true
    else if !idleint.oStb || !clock.iTxBusy then false
    else idleint.oStb
  oCodword := ((idleint.loads clock).map Loaded.word).getD idleint.oCodword
  intSent :=
    if idleint.intRequest && (!idleint.oStb && !idleint.oBusy && !clock.iStb) then true
    else if !clock.iInt then false
    else idleint.intSent

/-- The initial values; `o_codword` has none. -/
def initial (codword : Word) : IdleInt idlebits where
  intRequest := false
  intSent := false
  idleCounter := 0
  idleState := false
  oStb := false
  oCodword := codword

/-- `i_stb` is raised only while `o_busy` is low. -/
def Legal (idleint : IdleInt idlebits) (clock : Clock) : Prop :=
  clock.iStb = true → idleint.oBusy = false

instance (idleint : IdleInt idlebits) (clock : Clock) : Decidable (idleint.Legal clock) :=
  inferInstanceAs (Decidable (_ → _))

/-- The word the next stage takes at a clock. -/
def gives (idleint : IdleInt idlebits) (clock : Clock) : List Word :=
  if idleint.oStb && !clock.iTxBusy then [idleint.oCodword] else []

/-- The word of the executor at a clock. -/
def given (clock : Clock) : Option Word := if clock.iStb then some clock.iCodword else none

/-- The rising transitions of `i_int`, which has been `before`. -/
def rises : Bool → List Clock → Nat
  | _, [] => 0
  | before, clock :: rest => (clock.iInt && !before).toNat + rises clock.iInt rest

/-! ### The codewords -/

def loaded (idleint : IdleInt idlebits) (clock : Clock) : List Loaded :=
  (idleint.loads clock).toList

def held (idleint : IdleInt idlebits) : List Word :=
  if idleint.oStb then [idleint.oCodword] else []

theorem loads_busy {idleint : IdleInt idlebits} (busy : idleint.oStb = true) (clock : Clock) :
    idleint.loads clock = none := by
  simp [loads, oBusy, busy]

theorem step_held {idleint : IdleInt idlebits} (clock : Clock) :
    idleint.held ++ (idleint.loaded clock).map Loaded.word =
      idleint.gives clock ++ (idleint.step clock).held := by
  cases busy : idleint.oStb with
  | true =>
      have none := loads_busy busy clock
      cases taken : clock.iTxBusy <;> simp [held, loaded, gives, step, busy, none, taken]
  | false =>
      cases new : idleint.loads clock <;> simp [held, loaded, gives, step, busy, new]

/-- What is loaded comes out, in its order. -/
theorem conveys : Conveys (step : IdleInt idlebits → Clock → IdleInt idlebits) (fun _ _ => True)
    (fun idleint clock => (idleint.loaded clock).map Loaded.word) gives
    (fun idleint words => words = idleint.held) := by
  rintro idleint clock _ rfl -
  exact ⟨_, step_held clock, rfl⟩

theorem loaded_passes {idleint : IdleInt idlebits} {clock : Clock} (legal : idleint.Legal clock) :
    (idleint.loaded clock).filterMap Loaded.passes = (given clock).toList := by
  cases offered : clock.iStb with
  | true => simp [loaded, loads, given, offered, legal offered, Loaded.passes]
  | false =>
      simp only [loaded, loads, given, offered, Bool.false_and, Bool.false_eq_true, if_false]
      split_ifs <;> simp [Loaded.passes]

/-- Of the words that are loaded, those that pass through are the executor's. -/
theorem run_passes {idleint : IdleInt idlebits} {clocks : List Clock}
    (legal : Along step Legal idleint clocks) :
    (observed step loaded idleint clocks).filterMap Loaded.passes = clocks.filterMap given := by
  induction clocks generalizing idleint with
  | nil => rfl
  | cons clock rest ih =>
      rw [observed, List.filterMap_append, loaded_passes legal.1, ih legal.2]
      cases new : given clock <;> simp [new]

/-! ### The interrupts -/

/-- The interrupt codewords put in at a clock. -/
def reports (idleint : IdleInt idlebits) (clock : Clock) : List Word :=
  ((idleint.loaded clock).filterMap Loaded.inserts).filter (· == cwInterrupt)

/-- A reported request is not opened again: where `i_int` falls while a request
is set that has been sent, no codeword is under way or comes in, or one that
takes the request back when it is accepted. -/
def Closes (idleint : IdleInt idlebits) (clock : Clock) : Prop :=
  idleint.intRequest = true → idleint.intSent = true → clock.iInt = false →
    if idleint.oStb then kind idleint.oCodword = 4 else clock.iStb = true → kind clock.iCodword = 4

instance (idleint : IdleInt idlebits) (clock : Clock) : Decidable (idleint.Closes clock) :=
  inferInstanceAs (Decidable (_ → _ → _ → _))

/-- An interrupt codeword is on its way, or one from the executor that looks like it. -/
def clears (idleint : IdleInt idlebits) : Bool := idleint.oStb && kind idleint.oCodword == 4

variable {idleint : IdleInt idlebits} {before : Bool} {sent risen : Nat}

/-- The reports that are still owed for rises that have been seen. -/
def owed (idleint : IdleInt idlebits) (before : Bool) : Nat :=
  if !idleint.intRequest || idleint.intSent then 0
  else if idleint.clears then before.toNat
  else 1

theorem owed_le (idleint : IdleInt idlebits) (before : Bool) : idleint.owed before ≤ 1 := by
  have := Bool.toNat_le before
  unfold owed
  split_ifs <;> omega

/-- Nothing is owed for a request that was sent, or is about to be cleared. -/
theorem owed_low {idleint : IdleInt idlebits}
    (settled : idleint.intRequest = true → idleint.intSent = true ∨ idleint.clears = true) :
    idleint.owed false = 0 := by
  unfold owed
  cases asked : idleint.intRequest with
  | false => rfl
  | true => rcases settled asked with sent | clearing <;> simp [*]

theorem owed_sent {idleint : IdleInt idlebits} (sent : idleint.intSent = true) (before : Bool) :
    idleint.owed before = 0 := by
  simp [owed, sent]

theorem owed_waiting {idleint : IdleInt idlebits} (asked : idleint.intRequest = true)
    (unsent : idleint.intSent = false) (staying : idleint.clears = false) (before : Bool) :
    idleint.owed before = 1 := by
  simp [owed, asked, unsent, staying]

theorem owed_clearing {idleint : IdleInt idlebits} (asked : idleint.intRequest = true)
    (unsent : idleint.intSent = false) (clearing : idleint.clears = true) (before : Bool) :
    idleint.owed before = before.toNat := by
  simp [owed, asked, unsent, clearing]

/-- The requests with `i_int` before the clock, the reports so far and the rises so far. -/
structure Credit (idleint : IdleInt idlebits) (before : Bool) (sent risen : Nat) : Prop where
  requested : idleint.intSent = true → idleint.intRequest = true
  quiet : idleint.intRequest = false → before = false
  credit : sent + idleint.owed before ≤ risen

/-! What a clock does. -/

/-- A report is made where there is a request that has not been sent. -/
theorem reports_length (idleint : IdleInt idlebits) (clock : Clock) :
    (idleint.reports clock).length =
      (idleint.intRequest && !idleint.intSent && !idleint.oStb && !clock.iStb).toNat := by
  have busy : (cwBusbusy == cwInterrupt) = false := by decide
  have idle : (cwIdle == cwInterrupt) = false := by decide
  cases free : idleint.oStb with
  | true => simp [reports, loaded, loads, oBusy, free]
  | false =>
      cases offered : clock.iStb with
      | true => simp [reports, loaded, loads, oBusy, free, offered, Loaded.inserts]
      | false =>
          cases wanted : idleint.intRequest && !idleint.intSent with
          | true => simp [reports, loaded, loads, free, offered, wanted, Loaded.inserts]
          | false =>
              simp only [reports, loaded, loads, free, offered, wanted]
              cases idleint.idleExpired <;> cases clock.iCyc <;> simp [Loaded.inserts, busy, idle]

theorem step_intRequest (idleint : IdleInt idlebits) (clock : Clock) :
    (idleint.step clock).intRequest =
      if idleint.clears && !clock.iTxBusy then clock.iInt
      else idleint.intRequest || clock.iInt := by
  simp only [step, clears]
  rw [Bool.and_right_comm]
  rfl

theorem step_intSent (idleint : IdleInt idlebits) (clock : Clock) :
    (idleint.step clock).intSent =
      (idleint.intRequest && !idleint.oStb && !clock.iStb || clock.iInt && idleint.intSent) := by
  have split (asked free raised sent : Bool) :
      (if asked && (free && free && !clock.iStb) then true else if !raised then false else sent) =
        (asked && free && !clock.iStb || raised && sent) := by
    cases asked <;> cases free <;> cases raised <;> cases clock.iStb <;> rfl
  exact split _ _ _ _

/-- A codeword that is not accepted stays. -/
theorem step_clears_kept (clearing : idleint.clears = true) {clock : Clock}
    (refused : clock.iTxBusy = true) : (idleint.step clock).clears = true := by
  obtain ⟨busy, four⟩ := Bool.and_eq_true_iff.mp clearing
  simp [clears, step, loads_busy busy, busy, refused, beq_iff_eq.mp four]

theorem step_clears_passed (free : idleint.oStb = false) {clock : Clock}
    (offered : clock.iStb = true) (four : kind clock.iCodword = 4) :
    (idleint.step clock).clears = true := by
  simp [clears, step, loads, oBusy, free, offered, Loaded.word, four]

/-- With the line low, nothing is owed for a codeword that clears the request. -/
theorem step_owed_cleared (clearing : idleint.clears = true) {clock : Clock}
    (low : clock.iInt = false) : (idleint.step clock).owed false = 0 := by
  refine owed_low fun asked => .inr ?_
  cases refused : clock.iTxBusy with
  | true => exact step_clears_kept clearing refused
  | false =>
      rw [step_intRequest, clearing, refused, low] at asked
      cases asked

theorem step_requested {clock : Clock} (sent : (idleint.step clock).intSent = true) :
    (idleint.step clock).intRequest = true := by
  rw [step_intSent, Bool.or_eq_true, Bool.and_eq_true, Bool.and_eq_true, Bool.and_eq_true,
    Bool.not_eq_true'] at sent
  rw [step_intRequest]
  rcases sent with ⟨⟨asked, free⟩, _⟩ | ⟨raised, sent⟩
  · simp [clears, free, asked]
  · simp [raised]

theorem step_quiet {clock : Clock} (none : (idleint.step clock).intRequest = false) :
    clock.iInt = false := by
  rw [step_intRequest] at none
  split_ifs at none with taken
  · exact none
  · exact (Bool.or_eq_false_iff.mp none).2

/-- No request is set. -/
theorem Credit.unasked (credit : idleint.Credit before sent risen)
    (none : idleint.intRequest = false) (clock : Clock) :
    sent + (idleint.reports clock).length + (idleint.step clock).owed clock.iInt ≤
      risen + (clock.iInt && !before).toNat := by
  have silent : (idleint.reports clock).length = 0 := by rw [reports_length, none]; rfl
  have before := credit.credit
  have due := owed_le (idleint.step clock) clock.iInt
  rw [credit.quiet none, silent]
  cases raised : clock.iInt with
  | true =>
      rw [raised] at due
      simp only [Bool.not_false, Bool.and_self, Bool.toNat_true]
      omega
  | false =>
      have still : (idleint.step clock).intRequest = false := by
        rw [step_intRequest, none, raised]
        exact ite_self _
      rw [owed_low (fun asked => absurd (still.symm.trans asked) Bool.false_ne_true)]
      exact Nat.le_trans (Nat.le_add_right _ _) before

/-- A request that has not been sent. -/
theorem Credit.unsent (credit : idleint.Credit before sent risen)
    (asked : idleint.intRequest = true) (unsent : idleint.intSent = false) (clock : Clock) :
    sent + (idleint.reports clock).length + (idleint.step clock).owed clock.iInt ≤
      risen + (clock.iInt && !before).toNat := by
  have due := owed_le (idleint.step clock) clock.iInt
  have paid := credit.credit
  have count := reports_length idleint clock
  rw [asked, unsent, Bool.not_false, Bool.and_self, Bool.true_and] at count
  cases clearing : idleint.clears with
  | false =>
      rw [owed_waiting asked unsent clearing] at paid
      cases free : !idleint.oStb && !clock.iStb with
      | true =>
          have sent : (idleint.step clock).intSent = true := by
            rw [step_intSent, asked, Bool.true_and, free, Bool.true_or]
          rw [count, free, owed_sent sent]
          exact Nat.le_trans paid (Nat.le_add_right _ _)
      | false =>
          rw [count, free, Bool.toNat_false]
          omega
  | true =>
      have busy := (Bool.and_eq_true_iff.mp clearing).1
      have silent : (idleint.reports clock).length = 0 := by rw [count, busy]; rfl
      rw [owed_clearing asked unsent clearing] at paid
      rw [silent]
      cases raised : clock.iInt with
      | true =>
          rw [raised] at due
          cases before <;> simp only [Bool.toNat_true, Bool.toNat_false, Bool.not_true,
            Bool.not_false, Bool.and_self, Bool.and_false] at paid ⊢ <;> omega
      | false =>
          rw [step_owed_cleared clearing raised]
          exact Nat.le_trans (Nat.le_of_add_right_le paid) (Nat.le_add_right _ _)

/-- A request that has been sent. -/
theorem Credit.resent (credit : idleint.Credit before sent risen)
    (asked : idleint.intRequest = true) (reported : idleint.intSent = true) {clock : Clock}
    (closes : idleint.Closes clock) :
    sent + (idleint.reports clock).length + (idleint.step clock).owed clock.iInt ≤
      risen + (clock.iInt && !before).toNat := by
  have silent : (idleint.reports clock).length = 0 := by
    rw [reports_length, asked, reported]
    rfl
  have paid := Nat.le_of_add_right_le credit.credit
  have settled : (idleint.step clock).owed clock.iInt = 0 := by
    cases raised : clock.iInt with
    | true =>
        have sent : (idleint.step clock).intSent = true := by
          rw [step_intSent, raised, reported, Bool.and_self, Bool.or_true]
        exact owed_sent sent true
    | false =>
        have closed := closes asked reported raised
        cases busy : idleint.oStb with
        | true =>
            rw [busy, if_pos rfl] at closed
            exact step_owed_cleared (by simp [clears, busy, closed]) raised
        | false =>
            rw [busy, if_neg Bool.false_ne_true] at closed
            cases offered : clock.iStb with
            | true =>
                exact owed_low fun _ => .inr (step_clears_passed busy offered (closed offered))
            | false =>
                have sent : (idleint.step clock).intSent = true := by
                  rw [step_intSent, asked, busy, offered]
                  rfl
                exact owed_sent sent false
  rw [silent, settled]
  exact Nat.le_trans paid (Nat.le_add_right _ _)

theorem Credit.step (credit : idleint.Credit before sent risen) {clock : Clock}
    (closes : idleint.Closes clock) :
    (idleint.step clock).Credit clock.iInt (sent + (idleint.reports clock).length)
      (risen + (clock.iInt && !before).toNat) where
  requested := step_requested
  quiet := step_quiet
  credit := by
    cases asked : idleint.intRequest with
    | false => exact credit.unasked asked clock
    | true =>
        cases reported : idleint.intSent with
        | false => exact credit.unsent asked reported clock
        | true => exact credit.resent asked reported closes

/-- The reports of a run are covered by its rises. -/
theorem Credit.run (credit : idleint.Credit before sent risen) {clocks : List Clock}
    (closes : Along IdleInt.step Closes idleint clocks) :
    sent + (observed IdleInt.step reports idleint clocks).length ≤ risen + rises before clocks := by
  induction clocks generalizing idleint before sent risen with
  | nil => exact Nat.le_of_add_right_le credit.credit
  | cons clock rest ih =>
      rw [observed, List.length_append, rises, ← Nat.add_assoc, ← Nat.add_assoc]
      exact ih (credit.step closes.1) closes.2

theorem initial_credit (codword : Word) :
    (initial codword : IdleInt idlebits).Credit false 0 0 where
  requested := nofun
  quiet _ := rfl
  credit := Nat.le_refl 0

/-- What comes out is what was put in, the executor's codewords in their order
and the circuit's own between them; there are no more reports than rises as
long as no reported request is opened again. -/
theorem interrupts_reported (codword : Word) {clocks : List Clock}
    (legal : Along step Legal (initial codword : IdleInt idlebits) clocks) :
    ((observed step loaded (initial codword : IdleInt idlebits) clocks).map Loaded.word =
        observed step gives (initial codword : IdleInt idlebits) clocks ++
          (clocked step (initial codword : IdleInt idlebits) clocks).held ∧
      (observed step loaded (initial codword : IdleInt idlebits) clocks).filterMap Loaded.passes =
        clocks.filterMap given) ∧
    (Along step Closes (initial codword : IdleInt idlebits) clocks →
      (observed step reports (initial codword : IdleInt idlebits) clocks).length ≤
        rises false clocks) := by
  refine ⟨⟨?_, run_passes legal⟩, fun closes => ?_⟩
  · have every : Along step (fun _ _ => True) (initial codword : IdleInt idlebits) clocks :=
      along_of_all (fun _ _ => trivial) _ _
    have empty : (initial codword : IdleInt idlebits).held = [] := rfl
    obtain ⟨_, order, rfl⟩ := conveys.run rfl every
    rw [empty, List.nil_append] at order
    rw [← order, observed_map]
  · have covered := (initial_credit codword).run closes
    rwa [Nat.zero_add, Nat.zero_add] at covered

/-- A clock that brings nothing. -/
def quiet : Clock := ⟨false, 0, false, false, false, false⟩

/-- An open request is reported at one of the next two quiet clocks. -/
theorem waiting_reports (asked : idleint.intRequest = true) (unsent : idleint.intSent = false)
    (staying : idleint.clears = false) :
    (observed step reports idleint [quiet, quiet]).length = 1 := by
  have still : (idleint.step quiet).intRequest = true := by
    rw [step_intRequest, staying, asked]
    rfl
  simp only [observed, List.append_nil, List.length_append, reports_length, asked, unsent, still,
    step_intSent]
  cases busy : idleint.oStb with
  | true => simp [step, loads_busy busy, busy, quiet]
  | false => simp [step, loads, oBusy, busy, asked, unsent, quiet]

/-- Where a reported request is opened again, it can be reported once more with
`i_int` low ever since. -/
theorem reopened_reports {clock : Clock} (reopens : ¬ idleint.Closes clock) :
    ∃ rest, rises clock.iInt rest = 0 ∧ Along step Legal (idleint.step clock) rest ∧
      (observed step reports (idleint.step clock) rest).length = 1 := by
  unfold Closes at reopens
  push Not at reopens
  obtain ⟨asked, reported, low, opened⟩ := reopens
  have passes : idleint.clears = false ∧ (!idleint.oStb && !clock.iStb) = false ∧
      (idleint.step clock).clears = false := by
    cases busy : idleint.oStb with
    | true =>
        rw [busy, if_pos rfl] at opened
        have other : (kind idleint.oCodword == 4) = false := beq_eq_false_iff_ne.mpr opened
        refine ⟨by rw [clears, other, Bool.and_false], rfl, ?_⟩
        simp only [clears, step, loads_busy busy, Option.map_none, Option.getD_none, other,
          Bool.and_false]
    | false =>
        rw [busy, if_neg Bool.false_ne_true, Classical.not_imp] at opened
        have other : (kind clock.iCodword == 4) = false := beq_eq_false_iff_ne.mpr opened.2
        refine ⟨by rw [clears, busy, Bool.false_and], by rw [opened.1]; rfl, ?_⟩
        have passed : idleint.loads clock = some (.passed clock.iCodword) := by
          simp [loads, oBusy, busy, opened.1]
        simp only [clears, step, passed, Option.map_some, Option.getD_some, Loaded.word, other,
          Bool.and_false]
  have still : (idleint.step clock).intRequest = true := by
    rw [step_intRequest, passes.1, asked]
    rfl
  have unsent : (idleint.step clock).intSent = false := by
    rw [step_intSent, low, asked, Bool.true_and, passes.2.1]
    rfl
  have legal : Along step Legal (idleint.step clock) [quiet, quiet] := ⟨nofun, nofun, trivial⟩
  exact ⟨_, by simp [rises, quiet], legal, waiting_reports still unsent passes.2.2⟩

/-- A pulse of `i_int`, which is over before the executor's codeword comes. -/
def shortInterrupt : List Clock :=
  [{ quiet with iInt := true }, quiet, quiet, { quiet with iStb := true, iCodword := 7 }, quiet]

theorem shortInterrupt_reported :
    (observed step loaded (initial 0 : IdleInt 31) shortInterrupt).filterMap Loaded.passes =
        shortInterrupt.filterMap given ∧
      (observed step reports (initial 0 : IdleInt 31) shortInterrupt).length ≤
        rises false shortInterrupt :=
  ⟨(interrupts_reported 0 (by decide)).1.2, (interrupts_reported 0 (by decide)).2 (by decide)⟩

/-- A level of `i_int` that is still high when its codeword is accepted. -/
def longInterrupt : List Clock :=
  [{ quiet with iInt := true }, { quiet with iInt := true }, { quiet with iInt := true },
    { quiet with iStb := true, iCodword := 7 }, quiet, quiet]

theorem longInterrupt_reported_twice :
    Along step Legal (initial 0 : IdleInt 31) longInterrupt ∧ rises false longInterrupt = 1 ∧
      (observed step reports (initial 0 : IdleInt 31) longInterrupt).length = 2 := by
  decide

end IdleInt

end ZipVersa.DebugBus
