import ZipVersa.DebugBus.Codewords

/-! The books `wbuexec` keeps over a read: as many requests as the command
asks for, one codeword back for each acknowledgement, and no way to `WB_IDLE`
while one is owed. The bus acknowledges requests it has taken, each once. -/

set_option autoImplicit false

namespace ZipVersa.DebugBus

open Lib

/-- The codeword of a read result. -/
def isData (word : Word) : Bool := word.extractLsb' 33 3 == 0b111

theorem isData_readData (inc : Bool) (data : BitVec 32) : isData (Exec.readData inc data) = true := by
  have code := flagged_code 0b111 (BitVec.ofBool inc) data
  rw [isData, beq_iff_eq]
  exact code

theorem isData_addressWord (addr : BitVec 32) : isData (Exec.addressWord addr) = false := by
  have code : (Exec.addressWord addr).extractLsb' 33 3 = 0b001 := by
    apply BitVec.eq_of_getLsbD_eq
    intro position inside
    unfold Exec.addressWord
    erw [BitVec.getLsbD_extractLsb', BitVec.getLsbD_append]
    interval_cases position <;> simp
  rw [isData, code]
  rfl

namespace Exec

/-- The codeword presented to the output side, if there is one. -/
def out (exec : Exec) : List Word := if exec.outStb then [exec.outCodword] else []

/-- A request the bus takes. -/
def accepted (exec : Exec) (bus : Bus) : Nat := if exec.cyc && exec.stb && !bus.stall then 1 else 0

/-- An address still to be sent back, with the next read. -/
def announces (exec : Exec) : Nat := if exec.state = .idle ∧ exec.newAddr = true then 1 else 0

end Exec

/-- Requests taken and not acknowledged, after a clock. -/
def owedAfter (owed : Nat) (exec : Exec) (bus : Bus) : Nat :=
  owed + exec.accepted bus - (if bus.ack then 1 else 0)

/-- An acknowledgement is for a request that was taken; errors do not occur. -/
structure Bus.Fair (bus : Bus) (owed : Nat) (exec : Exec) : Prop where
  noErr : bus.err = false
  ack : bus.ack = true → 0 < owed + exec.accepted bus

/-- The circuit in a run of reads, with `owed` acknowledgements outstanding and
`due` results to come. -/
inductive Reads (exec : Exec) (owed : Nat) : Nat → Prop where
  | idle : exec.state = .idle → exec.cyc = false → exec.stb = false → owed = 0 →
      Reads exec owed 0
  | request : exec.state = .readRequest → exec.cyc = true → exec.stb = true → exec.we = false →
      exec.acksNeeded.toNat = owed → 0 < exec.len.toNat →
      (exec.singleReadRequest || exec.lastReadRequest) = decide (exec.len.toNat = 1) →
      owed + exec.len.toNat < 1024 → Reads exec owed (owed + exec.len.toNat)
  | ack : exec.state = .ack → exec.cyc = true → exec.stb = false → exec.we = false →
      exec.newAddr = false → exec.acksNeeded.toNat = owed → (exec.lastAck = true → owed ≤ 1) →
      (exec.zeroAcks = true → owed = 0) → owed < 1024 → Reads exec owed owed

/-- What a clock without a codeword leaves of `due` results and of an address
to announce. -/
structure Settles (exec after : Exec) (due later : Nat) : Prop where
  results : later + after.out.countP isData = due
  noAddress : after.out.countP (fun word => !isData word) = 0
  announces : after.announces ≤ exec.announces

namespace Reads

variable {exec : Exec} {owed due : Nat} {bus : Bus}

/-- `r_acks_needed` counts what is owed. -/
theorem acksNeeded_step (iStb : Bool) (word : Word) (cycle : exec.cyc = true)
    (counted : exec.acksNeeded.toNat = owed) (fair : bus.Fair owed exec)
    (small : owedAfter owed exec bus < 1024) :
    (exec.counters iStb word bus).acksNeeded.toNat = owedAfter owed exec bus := by
  have legal := fair.ack
  have bound := exec.acksNeeded.isLt
  simp only [Exec.counters, owedAfter, Exec.accepted, cycle] at legal small ⊢
  cases strobe : exec.stb <;> cases stall : bus.stall <;> cases ack : bus.ack <;>
    simp [strobe, stall, ack, BitVec.toNat_add, BitVec.toNat_sub] at legal small ⊢ <;> omega

/-- The look-ahead of `last_read_request`. -/
theorem last_lookahead (len : BitVec 10) (stall : Bool) :
    (len.extractLsb' 2 8 == 0 && (!len.getLsbD 1 || !len.getLsbD 0 && !stall)) =
      decide (len.toNat ≤ if stall then 1 else 2) := by
  have high : (len.extractLsb' 2 8).toNat = len.toNat / 4 := by
    rw [BitVec.extractLsb'_toNat, Nat.shiftRight_eq_div_pow]
    exact Nat.mod_eq_of_lt (by have := len.isLt; omega)
  have one : len.getLsbD 1 = decide (len.toNat / 2 % 2 = 1) := Nat.testBit_eq_decide_div_mod_eq
  have zero : len.getLsbD 0 = decide (len.toNat / 1 % 2 = 1) := Nat.testBit_eq_decide_div_mod_eq
  rw [Bool.eq_iff_iff, Bool.and_eq_true, beq_iff_eq, ← BitVec.toNat_inj, high, one, zero]
  cases stall <;> simp <;> omega

/-- `r_len` counts the requests to come, the present one included. -/
theorem len_step (iStb : Bool) (word : Word) (bus : Bus) (strobe : exec.stb = true)
    (positive : 0 < exec.len.toNat) : (exec.counters iStb word bus).len.toNat =
      exec.len.toNat - (if bus.stall then 0 else 1) := by
  have notZero : exec.len ≠ 0#10 := by
    intro zero
    rw [zero] at positive
    exact absurd positive (Nat.lt_irrefl _)
  cases stall : bus.stall with
  | true => simp [Exec.counters, strobe, stall]
  | false =>
      have bound := exec.len.isLt
      have minus : (exec.len - 1#10).toNat = exec.len.toNat - 1 := by
        rw [BitVec.toNat_sub, BitVec.toNat_ofNat]
        omega
      simp [Exec.counters, strobe, stall, notZero, minus]

/-- A clock of a read that gives back what was acknowledged. -/
theorem settles_ack {after : Exec} {later : Nat}
    (out : after.out = if bus.ack then [Exec.readData exec.inc bus.data] else [])
    (quiet : after.announces = 0) (sum : later + (if bus.ack then 1 else 0) = due) :
    Settles exec after due later := by
  rw [← sum]
  cases ack : bus.ack with
  | false =>
      rw [ack] at out
      exact ⟨by simp [out], by simp [out], by simp [quiet]⟩
  | true =>
      rw [ack] at out
      exact ⟨by simp [out, isData_readData], by simp [out, isData_readData], by simp [quiet]⟩

/-- The requests of a read go out, `owed` of them not acknowledged. -/
structure Requests (exec : Exec) (owed : Nat) : Prop where
  state : exec.state = .readRequest
  cycle : exec.cyc = true
  strobe : exec.stb = true
  direction : exec.we = false
  counted : exec.acksNeeded.toNat = owed
  positive : 0 < exec.len.toNat
  flags : (exec.singleReadRequest || exec.lastReadRequest) = decide (exec.len.toNat = 1)
  small : owed + exec.len.toNat < 1024

/-- The request on the bus is the last, and the bus takes it. -/
def lastTaken (exec : Exec) (bus : Bus) : Bool := !bus.stall && decide (exec.len.toNat = 1)

section Request

variable (iStb : Bool) (word : Word)

theorem Requests.accepted (requests : Requests exec owed) :
    exec.accepted bus = if bus.stall then 0 else 1 := by
  simp only [Exec.accepted, requests.cycle, requests.strobe]
  cases bus.stall <;> rfl

/-- What `WB_READ_REQUEST` does, with its flags for the last request right. -/
theorem step_request (state : exec.state = .readRequest)
    (flags : (exec.singleReadRequest || exec.lastReadRequest) = decide (exec.len.toNat = 1))
    (noErr : bus.err = false) :
    exec.step iStb word bus =
      { exec.counters iStb word bus with
        state := if lastTaken exec bus then .ack else .readRequest
        cyc := true
        stb := !lastTaken exec bus
        outStb := bus.ack
        outCodword := Exec.readData exec.inc bus.data
        addr := if exec.inc && !bus.stall then exec.addr + 1 else exec.addr } := by
  simp only [Exec.step, state, Exec.fromRead, flags, noErr, Bool.false_or, Bool.false_eq_true,
    if_false]
  rfl

theorem Requests.settles (requests : Requests exec owed) (fair : bus.Fair owed exec) {later : Nat}
    (sum : later + (if bus.ack then 1 else 0) = due) :
    Settles exec (exec.step iStb word bus) due later := by
  have stepped := step_request iStb word requests.state requests.flags fair.noErr
  refine settles_ack ?_ ?_ sum
  · rw [stepped]
    rfl
  · rw [stepped, Exec.announces, if_neg]
    rintro ⟨idle, -⟩
    dsimp only at idle
    split at idle <;> cases idle

theorem Requests.counts (requests : Requests exec owed) (fair : bus.Fair owed exec) :
    (exec.counters iStb word bus).acksNeeded.toNat = owedAfter owed exec bus := by
  have small := requests.small
  have positive := requests.positive
  refine acksNeeded_step iStb word requests.cycle requests.counted fair ?_
  rw [owedAfter, requests.accepted]
  split <;> omega

/-- The last request goes out. -/
theorem Requests.last (requests : Requests exec owed) (fair : bus.Fair owed exec)
    (final : lastTaken exec bus = true) :
    Reads (exec.step iStb word bus) (owedAfter owed exec bus) (owedAfter owed exec bus) ∧
      owedAfter owed exec bus + (if bus.ack then 1 else 0) = owed + exec.len.toNat := by
  have stepped := step_request iStb word requests.state requests.flags fair.noErr
  have counted := requests.counted
  have small := requests.small
  have strobe := requests.strobe
  simp only [final, Bool.not_true, if_true] at stepped
  simp only [lastTaken, Bool.and_eq_true, Bool.not_eq_true', decide_eq_true_eq] at final
  obtain ⟨taken, single⟩ := final
  have one : exec.accepted bus = 1 := by rw [requests.accepted, taken]; rfl
  constructor
  · refine .ack (by rw [stepped]) (by rw [stepped]) (by rw [stepped]) ?_ ?_ ?_ ?_ ?_ ?_
    · rw [stepped]
      exact requests.direction
    · rw [stepped]
      simp [Exec.counters, requests.cycle]
    · rw [stepped]
      exact requests.counts iStb word fair
    · rw [stepped]
      intro lastAck
      simp [Exec.counters, strobe] at lastAck
      rw [lastAck] at counted
      simp at counted
      rw [owedAfter, one, ← counted]
      omega
    · rw [stepped]
      intro zeroAcks
      simp [Exec.counters, strobe] at zeroAcks
    · rw [owedAfter, one]
      omega
  · rw [owedAfter, one, single]
    split <;> omega

/-- More requests follow. -/
theorem Requests.more (requests : Requests exec owed) (fair : bus.Fair owed exec)
    (going : lastTaken exec bus = false) :
    Requests (exec.step iStb word bus) (owedAfter owed exec bus) ∧
      owedAfter owed exec bus + (exec.step iStb word bus).len.toNat +
        (if bus.ack then 1 else 0) = owed + exec.len.toNat := by
  have legal := fair.ack
  have one : exec.accepted bus = if bus.stall then 0 else 1 := requests.accepted
  have positive := requests.positive
  have small := requests.small
  have stepped := step_request iStb word requests.state requests.flags fair.noErr
  simp only [going, Bool.false_eq_true, if_false, Bool.not_false] at stepped
  have len : (exec.step iStb word bus).len.toNat = exec.len.toNat - exec.accepted bus := by
    rw [stepped, one]
    exact len_step iStb word bus requests.strobe positive
  have more : exec.accepted bus < exec.len.toNat := by
    rw [one]
    cases stall : bus.stall with
    | true => simpa using positive
    | false =>
        simp only [lastTaken, stall, Bool.not_false, Bool.true_and, decide_eq_false_iff_not] at going
        simp only [Bool.false_eq_true, if_false]
        omega
  have sum : owedAfter owed exec bus + (exec.step iStb word bus).len.toNat +
      (if bus.ack then 1 else 0) = owed + exec.len.toNat := by
    rw [len, owedAfter]
    split
    · next ack =>
      have pending := legal ack
      omega
    · omega
  refine ⟨?_, sum⟩
  constructor
  case state => rw [stepped]
  case cycle => rw [stepped]
  case strobe => rw [stepped]
  case direction =>
    rw [stepped]
    exact requests.direction
  case counted =>
    rw [stepped]
    exact requests.counts iStb word fair
  case positive =>
    rw [len]
    omega
  case flags =>
    rw [len, one]
    rw [stepped]
    simp only [Exec.counters, requests.cycle, requests.strobe, Bool.not_true, Bool.false_and,
      Bool.false_or, Bool.true_and, last_lookahead, decide_eq_decide]
    rw [one] at more
    cases stall : bus.stall <;>
      simp only [stall, Bool.false_eq_true, if_true, if_false] at more ⊢ <;> omega
  case small => omega

end Request

/-- A clock in `WB_READ_REQUEST`. -/
theorem request_step (iStb : Bool) (word : Word) (reads : Reads exec owed due)
    (state : exec.state = .readRequest) (fair : bus.Fair owed exec) :
    ∃ later, Reads (exec.step iStb word bus) (owedAfter owed exec bus) later ∧
      Settles exec (exec.step iStb word bus) due later := by
  cases reads with
  | idle other => rw [state] at other; cases other
  | ack other => rw [state] at other; cases other
  | request _ cycle strobe direction counted positive flags small =>
      have requests : Requests exec owed :=
        ⟨state, cycle, strobe, direction, counted, positive, flags, small⟩
      cases final : lastTaken exec bus with
      | true =>
          obtain ⟨acks, sum⟩ := requests.last iStb word fair final
          exact ⟨_, acks, requests.settles iStb word fair sum⟩
      | false =>
          obtain ⟨next, sum⟩ := requests.more iStb word fair final
          exact ⟨_, .request next.state next.cycle next.strobe next.direction next.counted
            next.positive next.flags next.small, requests.settles iStb word fair sum⟩

/-- All requests have gone out, and `owed` of them are not acknowledged. -/
structure Acks (exec : Exec) (owed : Nat) : Prop where
  state : exec.state = .ack
  cycle : exec.cyc = true
  strobe : exec.stb = false
  direction : exec.we = false
  silent : exec.newAddr = false
  counted : exec.acksNeeded.toNat = owed
  lastAck : exec.lastAck = true → owed ≤ 1
  zeroAcks : exec.zeroAcks = true → owed = 0
  small : owed < 1024

/-- Nothing is owed any more. -/
def allAcked (exec : Exec) (bus : Bus) : Bool := exec.lastAck && bus.ack || exec.zeroAcks

section Ack

variable (iStb : Bool) (word : Word)

theorem Acks.stepped (acks : Acks exec owed) (fair : bus.Fair owed exec) :
    exec.step iStb word bus =
      { exec.counters iStb word bus with
        state := if allAcked exec bus then .idle else .ack
        cyc := !allAcked exec bus
        stb := false
        outStb := bus.ack
        outCodword := Exec.readData exec.inc bus.data } := by
  simp only [Exec.step, acks.state, Exec.fromAck, fair.noErr, acks.direction, Bool.or_false,
    Bool.not_false, Bool.and_true, Bool.false_eq_true, if_false]
  rfl

theorem Acks.after (acks : Acks exec owed) (fair : bus.Fair owed exec) :
    owedAfter owed exec bus + (if bus.ack then 1 else 0) = owed := by
  have legal := fair.ack
  have none : exec.accepted bus = 0 := by simp [Exec.accepted, acks.strobe]
  rw [none] at legal
  rw [owedAfter, none]
  split
  · next ack =>
    have pending := legal ack
    omega
  · omega

theorem Acks.clear (acks : Acks exec owed) (fair : bus.Fair owed exec)
    (done : allAcked exec bus = true) : owedAfter owed exec bus = 0 := by
  have after := acks.after fair
  simp only [allAcked, Bool.or_eq_true, Bool.and_eq_true] at done
  rcases done with ⟨last, ack⟩ | zero
  · have one := acks.lastAck last
    rw [ack, if_pos rfl] at after
    omega
  · have nothing := acks.zeroAcks zero
    omega

theorem Acks.settles (acks : Acks exec owed) (fair : bus.Fair owed exec) :
    Settles exec (exec.step iStb word bus) owed (owedAfter owed exec bus) := by
  have stepped := acks.stepped iStb word fair
  have hushed : (exec.counters iStb word bus).newAddr = false := by
    simp [Exec.counters, acks.cycle]
  refine settles_ack ?_ ?_ (acks.after fair)
  · rw [stepped]
    rfl
  · rw [stepped, Exec.announces, if_neg]
    rintro ⟨-, announced⟩
    rw [hushed] at announced
    cases announced

theorem Acks.more (acks : Acks exec owed) (fair : bus.Fair owed exec)
    (waits : allAcked exec bus = false) :
    Acks (exec.step iStb word bus) (owedAfter owed exec bus) := by
  have stepped := acks.stepped iStb word fair
  have after := acks.after fair
  have counted := acks.counted
  have small := acks.small
  simp only [waits, Bool.false_eq_true, if_false, Bool.not_false] at stepped
  constructor
  case state => rw [stepped]
  case cycle => rw [stepped]
  case strobe => rw [stepped]
  case direction =>
    rw [stepped]
    exact acks.direction
  case silent =>
    rw [stepped]
    simp [Exec.counters, acks.cycle]
  case counted =>
    rw [stepped]
    exact acksNeeded_step iStb word acks.cycle counted fair (by omega)
  case lastAck =>
    rw [stepped]
    intro last
    simp [Exec.counters, acks.strobe] at last
    rw [last] at counted
    simp at counted
    omega
  case zeroAcks =>
    rw [stepped]
    intro zero
    simp [Exec.counters, acks.strobe] at zero
    rw [zero] at counted
    simp at counted
    omega
  case small => omega

end Ack

/-- A clock in `WB_ACK`. -/
theorem ack_step (iStb : Bool) (word : Word) (reads : Reads exec owed due)
    (state : exec.state = .ack) (fair : bus.Fair owed exec) :
    ∃ later, Reads (exec.step iStb word bus) (owedAfter owed exec bus) later ∧
      Settles exec (exec.step iStb word bus) due later := by
  cases reads with
  | idle other => rw [state] at other; cases other
  | request other => rw [state] at other; cases other
  | ack _ cycle strobe direction silent counted lastAck zeroAcks small =>
      have acks : Acks exec owed :=
        ⟨state, cycle, strobe, direction, silent, counted, lastAck, zeroAcks, small⟩
      refine ⟨_, ?_, acks.settles iStb word fair⟩
      cases done : allAcked exec bus with
      | true =>
          have stepped := acks.stepped iStb word fair
          have clear := acks.clear fair done
          simp only [done, if_true, Bool.not_true] at stepped
          rw [clear]
          exact .idle (by rw [stepped]) (by rw [stepped]) (by rw [stepped]) rfl
      | false =>
          have next := acks.more iStb word fair done
          exact .ack next.state next.cycle next.strobe next.direction next.silent next.counted
            next.lastAck next.zeroAcks next.small

/-- A clock in `WB_IDLE` without a codeword. -/
theorem idle_step (word : Word) (reads : Reads exec owed due) (state : exec.state = .idle) :
    ∃ later, Reads (exec.step false word bus) (owedAfter owed exec bus) later ∧
      Settles exec (exec.step false word bus) due later := by
  cases reads with
  | request other => rw [state] at other; cases other
  | ack other => rw [state] at other; cases other
  | idle _ cycle strobe nothing =>
      have stepped := Exec.step_silent state word bus
      have still : owedAfter owed exec bus = 0 := by
        simp [owedAfter, Exec.accepted, cycle, nothing]
      refine ⟨0, .idle (by rw [stepped]; exact state) (by rw [stepped]; rfl) (by rw [stepped]; rfl)
        still, ⟨?_, ?_, ?_⟩⟩
      · rw [stepped]
        simp [Exec.out, Exec.idling]
      · rw [stepped]
        simp [Exec.out, Exec.idling]
      · rw [stepped]
        simp [Exec.idling, Exec.announces, Exec.counters, cycle]

/-- Between codewords, whatever the state. -/
theorem step (word : Word) (reads : Reads exec owed due) (fair : bus.Fair owed exec) :
    ∃ later, Reads (exec.step false word bus) (owedAfter owed exec bus) later ∧
      Settles exec (exec.step false word bus) due later := by
  cases reads with
  | idle state cycle strobe nothing =>
      exact idle_step word (.idle state cycle strobe nothing) state
  | request state cycle strobe direction counted positive flags small =>
      exact request_step false word
        (.request state cycle strobe direction counted positive flags small) state fair
  | ack state cycle strobe direction silent counted lastAck zeroAcks small =>
      exact ack_step false word
        (.ack state cycle strobe direction silent counted lastAck zeroAcks small) state fair

/-- An address or the end of writes leaves the circuit idle. -/
theorem idle_stays {word : Word} (state : exec.state = .idle) (cycle : exec.cyc = false)
    (nothing : owed = 0) {addr : BitVec 32}
    (stepped : exec.step true word bus =
      { exec.idling (exec.counters true word bus) word with addr }) :
    Reads (exec.step true word bus) (owedAfter owed exec bus) 0 ∧
      (exec.step true word bus).out = [] ∧
      (exec.step true word bus).announces ≤
        (if word.extractLsb' 35 1 = 0#1 then 1 else exec.announces) := by
  have still : owedAfter owed exec bus = 0 := by
    simp [owedAfter, Exec.accepted, cycle, nothing]
  rw [stepped]
  refine ⟨.idle state rfl rfl still, rfl, ?_⟩
  simp only [Exec.announces, Exec.idling, Exec.counters, state, cycle]
  by_cases address : word.extractLsb' 35 1 = 0#1
  · simp [address]
  · simp [address]

/-- A read command starts its requests. -/
theorem idle_reads {word : Word} {inc : Bool} {len : BitVec 10} (state : exec.state = .idle)
    (cycle : exec.cyc = false) (strobe : exec.stb = false) (nothing : owed = 0)
    (meaning : decode word = .read inc len) (positive : 0 < len.toNat) :
    Reads (exec.step true word bus) (owedAfter owed exec bus) len.toNat ∧
      (exec.step true word bus).out.countP isData = 0 ∧
      (exec.step true word bus).out.countP (fun word => !isData word) +
          (exec.step true word bus).announces ≤
        (if word.extractLsb' 35 1 = 0#1 then 1 else exec.announces) := by
  have stepped := Exec.step_idle state word bus
  rw [meaning] at stepped
  obtain ⟨-, length, direction⟩ := Exec.idling_read strobe meaning true bus
  have still : owedAfter owed exec bus = 0 := by
    simp [owedAfter, Exec.accepted, cycle, nothing]
  have field := (decode_eq_read meaning).2
  have same : (exec.step true word bus).len = len := by
    rw [stepped, ← length]
  have bound := len.isLt
  refine ⟨?_, ?_, ?_⟩
  · rw [← Nat.zero_add len.toNat, ← still, ← same]
    refine .request ?_ ?_ ?_ ?_ ?_ ?_ ?_ ?_
    · rw [stepped]
    · rw [stepped]
    · rw [stepped]
    · rw [stepped]
      exact direction
    · rw [stepped, still]
      simp [Exec.idling, Exec.counters, cycle]
    · rwa [same]
    · rw [same, stepped]
      simp only [Exec.idling, Exec.counters, cycle, strobe, field]
      simp
      rw [Bool.eq_iff_iff, beq_iff_eq, decide_eq_true_iff]
      exact BitVec.toNat_inj.symm
    · rw [same, still]
      omega
  · rw [stepped]
    cases exec.newAddr <;> simp [Exec.out, Exec.idling, isData_addressWord]
  · have high : word.extractLsb' 35 1 ≠ 0#1 := by
      rw [high_of_read meaning]
      decide
    rw [stepped, if_neg high]
    cases announce : exec.newAddr <;>
      simp [Exec.out, Exec.announces, announce, Exec.idling, isData_addressWord, state]

/-- A codeword that is not a write, taken in `WB_IDLE`. -/
theorem codeword (bus : Bus) {word : Word} (reads : Reads exec owed due) (ready : exec.busy = false)
    (notWrite : ∀ inc data, decode word ≠ .write inc data)
    (positive : ∀ inc len, decode word = .read inc len → 0 < len.toNat) :
    due = 0 ∧ Reads (exec.step true word bus) (owedAfter owed exec bus) (decode word).len ∧
      (exec.step true word bus).out.countP isData = 0 ∧
      (exec.step true word bus).out.countP (fun word => !isData word) +
          (exec.step true word bus).announces ≤
        (if word.extractLsb' 35 1 = 0#1 then 1 else exec.announces) := by
  cases reads with
  | request state => simp [Exec.busy, state] at ready
  | ack state => simp [Exec.busy, state] at ready
  | idle state cycle strobe nothing =>
      have stepped := Exec.step_idle state word bus
      refine ⟨rfl, ?_⟩
      cases meaning : decode word with
      | write inc data => exact absurd meaning (notWrite inc data)
      | read inc len =>
          exact idle_reads state cycle strobe nothing meaning (positive inc len meaning)
      | setAddress addr =>
          rw [meaning] at stepped
          obtain ⟨still, out, announced⟩ := idle_stays state cycle nothing stepped
          exact ⟨still, by rw [out]; rfl, by rw [out]; simpa using announced⟩
      | moveAddress offset =>
          rw [meaning] at stepped
          obtain ⟨still, out, announced⟩ := idle_stays state cycle nothing stepped
          exact ⟨still, by rw [out]; rfl, by rw [out]; simpa using announced⟩
      | endOfWrites =>
          rw [meaning] at stepped
          obtain ⟨still, out, announced⟩ := idle_stays state cycle nothing stepped
          exact ⟨still, by rw [out]; rfl, by rw [out]; simpa using announced⟩
      | none =>
          rw [meaning] at stepped
          obtain ⟨still, out, announced⟩ := idle_stays state cycle nothing stepped
          exact ⟨still, by rw [out]; rfl, by rw [out]; simpa using announced⟩

end Reads

end ZipVersa.DebugBus
