import ZipVersa.DebugBus.Executor
import ZipVersa.DebugBus.Reader

/-! Whole bursts through `wbuexec`. The requests follow the codewords alone;
what comes back follows the acknowledgements, and the two meet again in
`WB_ACK`, which is left when `r_acks_needed` has come down to nothing. -/

set_option autoImplicit false

namespace ZipVersa.DebugBus

open Lib

/-- The codeword side and the bus at one clock. -/
structure ExecClock where
  iStb : Bool
  word : Word
  bus : Bus
  deriving DecidableEq, Repr

inductive Request where
  | read (addr : BitVec 32)
  | write (addr data : BitVec 32)
  deriving DecidableEq, Repr

def ExecClock.unstalled (clock : ExecClock) : Bool := !clock.bus.stall

def ExecClock.acked (clock : ExecClock) : Bool := clock.bus.ack

/-- The address after `count` requests. -/
def strideAt (start : BitVec 32) (inc : Bool) (count : Nat) : BitVec 32 :=
  if inc then start + BitVec.ofNat 32 count else start

theorem strideAt_zero (start : BitVec 32) (inc : Bool) : strideAt start inc 0 = start := by
  cases inc with
  | false => rfl
  | true => simp [strideAt]

theorem strideAt_succ (start : BitVec 32) (inc : Bool) (count : Nat) :
    strideAt start inc (count + 1) =
      if inc then strideAt start inc count + 1 else strideAt start inc count := by
  cases inc with
  | false => rfl
  | true =>
      simp only [strideAt, if_true]
      rw [BitVec.ofNat_add, BitVec.add_assoc]
      rfl

/-- The requests of a read of `count` words. -/
def readRequests (start : BitVec 32) (inc : Bool) (count : Nat) : List Request :=
  (List.range count).map fun index => .read (strideAt start inc index)

/-- The requests of writes, from the word `index` of the burst on. -/
def writeRequests (start : BitVec 32) (inc : Bool) : Nat → List (BitVec 32) → List Request
  | _, [] => []
  | index, data :: rest =>
      .write (strideAt start inc index) data :: writeRequests start inc (index + 1) rest

theorem writeRequests_append (start : BitVec 32) (inc : Bool) (index : Nat)
    (first second : List (BitVec 32)) : writeRequests start inc index (first ++ second) =
      writeRequests start inc index first ++
        writeRequests start inc (index + first.length) second := by
  induction first generalizing index with
  | nil => rfl
  | cons data rest ih =>
      rw [List.cons_append, writeRequests, ih, writeRequests, List.length_cons, Nat.add_right_comm,
        Nat.add_assoc]
      rfl

theorem length_writeRequests (start : BitVec 32) (inc : Bool) (index : Nat)
    (words : List (BitVec 32)) : (writeRequests start inc index words).length = words.length := by
  induction words generalizing index with
  | nil => rfl
  | cons data rest ih => rw [writeRequests, List.length_cons, List.length_cons, ih]

namespace Exec

/-- One rising edge. -/
def tick (exec : Exec) (clock : ExecClock) : Exec := exec.step clock.iStb clock.word clock.bus

/-- The codeword taken at this clock. -/
def takes (exec : Exec) (clock : ExecClock) : List Word :=
  if clock.iStb && !exec.busy then [clock.word] else []

theorem takes_cases (exec : Exec) (clock : ExecClock) :
    exec.takes clock = [] ∨ exec.takes clock = [clock.word] := by
  rw [takes]
  split_ifs
  · exact .inr rfl
  · exact .inl rfl

/-- The request the bus takes at this clock. -/
def requests (exec : Exec) (clock : ExecClock) : List Request :=
  if exec.cyc && exec.stb && !clock.bus.stall then
    [if exec.we then .write exec.addr exec.data else .read exec.addr]
  else []

/-- The codeword presented after this clock. -/
def results (exec : Exec) (clock : ExecClock) : List Word := (exec.tick clock).out

/-- Nothing under way. -/
structure Idles (exec : Exec) : Prop where
  state : exec.state = .idle
  cyc : exec.cyc = false
  stb : exec.stb = false

theorem length_requests (exec : Exec) (clock : ExecClock) :
    (exec.requests clock).length = exec.accepted clock.bus := by
  rw [requests, accepted]
  split <;> rfl

theorem requests_of_strobe {exec : Exec} (strobe : exec.stb = false) (clock : ExecClock) :
    exec.requests clock = [] := by
  simp [requests, strobe]

/-- With `owed` acknowledgements outstanding, the bus reports no error,
acknowledges what it has taken and has fewer than 1024 requests to answer. -/
def Fair : Nat → Exec → List ExecClock → Prop
  | _, _, [] => True
  | owed, exec, clock :: rest =>
      clock.bus.Fair owed exec ∧ owedAfter owed exec clock.bus < 1024 ∧
        Fair (owedAfter owed exec clock.bus) (exec.tick clock) rest

/-- What is outstanding at the end. -/
def outstanding : Nat → Exec → List ExecClock → Nat
  | owed, _, [] => owed
  | owed, exec, clock :: rest =>
      outstanding (owedAfter owed exec clock.bus) (exec.tick clock) rest

variable {exec : Exec} {owed : Nat} {clock : ExecClock} {clocks : List ExecClock}

theorem Fair.append {first second : List ExecClock} (fair : Fair owed exec (first ++ second)) :
    Fair owed exec first ∧
      Fair (outstanding owed exec first) (clocked tick exec first) second := by
  induction first generalizing owed exec with
  | nil => exact ⟨trivial, fair⟩
  | cons clock rest ih =>
      obtain ⟨now, small, later⟩ := fair
      obtain ⟨before, after⟩ := ih later
      exact ⟨⟨now, small, before⟩, after⟩

/-- Every request taken is acknowledged or outstanding. -/
theorem outstanding_add (fair : Fair owed exec clocks) :
    outstanding owed exec clocks + clocks.countP ExecClock.acked =
      owed + (observed tick requests exec clocks).length := by
  induction clocks generalizing owed exec with
  | nil => rfl
  | cons clock rest ih =>
      obtain ⟨now, -, later⟩ := fair
      have after := ih later
      have legal := now.ack
      rw [observed, List.length_append, length_requests, List.countP_cons, outstanding]
      rw [owedAfter] at after ⊢
      rw [ExecClock.acked]
      cases ack : clock.bus.ack with
      | false =>
          rw [ack] at after
          simp only [Bool.false_eq_true, if_false, Nat.sub_zero] at after ⊢
          omega
      | true =>
          have := legal ack
          rw [ack] at after
          simp only [if_true] at after ⊢
          omega

/-! ### What is owed -/

/-- The bus lines by state, as the comments under `o_busy` have them. -/
structure Lines (exec : Exec) : Prop where
  cyc : exec.cyc = (exec.state != .idle)
  stb : exec.stb = (exec.state == .readRequest || exec.state == .writeRequest)
  noFlush : exec.state ≠ .flushWriteRequests

/-- `r_acks_needed` and its two look-aheads. -/
structure Owing (exec : Exec) (owed : Nat) : Prop where
  lines : exec.Lines
  counted : exec.cyc = true → exec.acksNeeded.toNat = owed
  closed : exec.cyc = false → owed = 0
  lastAck : exec.lastAck = true → owed ≤ 1
  zeroAcks : exec.zeroAcks = true → owed = 0

/-- A burst goes on: nothing but a write or the end of writes is taken in
`WB_WAIT_ON_NEXT_WRITE`. -/
def InBurst (exec : Exec) (clock : ExecClock) : Prop :=
  exec.state = .waitOnNextWrite → exec.newErr clock.iStb clock.word = false

theorem tick_counters (exec : Exec) (clock : ExecClock) :
    (exec.tick clock).acksNeeded = (exec.counters clock.iStb clock.word clock.bus).acksNeeded ∧
      (exec.tick clock).lastAck = (exec.counters clock.iStb clock.word clock.bus).lastAck ∧
      (exec.tick clock).zeroAcks = (exec.counters clock.iStb clock.word clock.bus).zeroAcks := by
  unfold tick step
  cases exec.state with
  | idle =>
      dsimp only
      unfold fromIdle
      split_ifs <;> exact ⟨rfl, rfl, rfl⟩
  | waitOnNextWrite =>
      dsimp only
      unfold fromWait
      split_ifs <;> exact ⟨rfl, rfl, rfl⟩
  | readRequest => exact ⟨rfl, rfl, rfl⟩
  | writeRequest => exact ⟨rfl, rfl, rfl⟩
  | ack => exact ⟨rfl, rfl, rfl⟩
  | flushWriteRequests => exact ⟨rfl, rfl, rfl⟩

theorem Lines.step (lines : exec.Lines) (noErr : clock.bus.err = false)
    (inBurst : exec.InBurst clock) : (exec.tick clock).Lines := by
  unfold tick Exec.step
  cases state : exec.state with
  | idle =>
      dsimp only
      unfold fromIdle
      split_ifs <;> constructor <;> simp [idling, counters, state]
  | waitOnNextWrite =>
      have fine := inBurst state
      simp only [fromWait, fine, noErr, Bool.false_eq_true, if_false]
      split_ifs <;> constructor <;> simp [counters, state]
  | readRequest =>
      simp only [fromRead, noErr, Bool.false_eq_true, if_false]
      cases !clock.bus.stall && (exec.singleReadRequest || exec.lastReadRequest) <;>
        constructor <;> simp
  | writeRequest =>
      simp only [fromWrite, noErr, Bool.false_eq_true, if_false]
      cases clock.bus.stall <;> constructor <;> simp
  | ack =>
      simp only [fromAck, noErr, Bool.or_false]
      cases exec.lastAck && clock.bus.ack || exec.zeroAcks <;> constructor <;> simp
  | flushWriteRequests => exact absurd state lines.noFlush

/-- Only `WB_ACK` leads back to `WB_IDLE`. -/
theorem idle_from_ack (lines : exec.Lines) (noErr : clock.bus.err = false)
    (inBurst : exec.InBurst clock) (burst : exec.state ≠ .idle)
    (leaves : (exec.tick clock).state = .idle) :
    exec.state = .ack ∧ (exec.lastAck = true ∧ clock.bus.ack = true ∨ exec.zeroAcks = true) := by
  unfold tick step at leaves
  cases state : exec.state with
  | idle => exact absurd state burst
  | waitOnNextWrite =>
      have fine := inBurst state
      simp only [state, fromWait, fine, noErr, Bool.false_eq_true, if_false] at leaves
      split_ifs at leaves
      simp [counters, state] at leaves
  | readRequest =>
      simp only [state, fromRead, noErr, Bool.false_eq_true, if_false] at leaves
      split_ifs at leaves
  | writeRequest =>
      simp only [state, fromWrite, noErr, Bool.false_eq_true, if_false] at leaves
      split_ifs at leaves
  | ack =>
      simp only [state, fromAck, noErr, Bool.or_false] at leaves
      split_ifs at leaves with done
      rw [Bool.or_eq_true, Bool.and_eq_true] at done
      exact ⟨rfl, done⟩
  | flushWriteRequests => exact absurd state lines.noFlush

theorem Owing.step (owing : exec.Owing owed) (fair : clock.bus.Fair owed exec)
    (small : owedAfter owed exec clock.bus < 1024) (inBurst : exec.InBurst clock) :
    (exec.tick clock).Owing (owedAfter owed exec clock.bus) := by
  obtain ⟨acksNeeded, lastAck, zeroAcks⟩ := exec.tick_counters clock
  have lines := owing.lines.step fair.noErr inBurst
  have legal := fair.ack
  cases cycle : exec.cyc with
  | false =>
      have none := owing.closed cycle
      have still : owedAfter owed exec clock.bus = 0 := by
        simp [owedAfter, accepted, cycle, none]
      rw [still]
      exact ⟨lines, fun _ => by rw [acksNeeded]; simp [counters, cycle], fun _ => rfl,
        fun _ => Nat.zero_le _, fun _ => rfl⟩
  | true =>
      have counted := owing.counted cycle
      have pending : ∀ count, exec.acksNeeded = BitVec.ofNat 10 count → count < 1024 →
          owed = count := by
        intro count same bound
        rw [← counted, same, BitVec.toNat_ofNat]
        exact Nat.mod_eq_of_lt bound
      refine ⟨lines, fun _ => ?_, fun closes => ?_, fun last => ?_, fun zero => ?_⟩
      · rw [acksNeeded]
        exact Reads.acksNeeded_step clock.iStb clock.word cycle counted fair small
      · -- nothing is owed when `WB_ACK` is left
        have burst : exec.state ≠ .idle := by
          rw [owing.lines.cyc] at cycle
          exact bne_iff_ne.mp cycle
        have leaves : (exec.tick clock).state = .idle := by
          rw [lines.cyc] at closes
          simpa using closes
        obtain ⟨state, done⟩ := idle_from_ack owing.lines fair.noErr inBurst burst leaves
        have strobe : exec.stb = false := by rw [owing.lines.stb, state]; rfl
        have none : exec.accepted clock.bus = 0 := by simp [accepted, strobe]
        rw [owedAfter, none]
        rcases done with ⟨last, ack⟩ | zero
        · have := owing.lastAck last
          rw [if_pos ack]
          omega
        · rw [owing.zeroAcks zero]
          exact Nat.zero_sub _
      · rw [lastAck] at last
        cases strobe : exec.stb with
        | false =>
            have one : owed = 1 := pending 1 (by simpa [counters, strobe] using last) (by decide)
            have none : exec.accepted clock.bus = 0 := by simp [accepted, strobe]
            rw [owedAfter, none, one]
            exact Nat.sub_le _ _
        | true =>
            have zero : owed = 0 := pending 0 (by simpa [counters, strobe] using last) (by decide)
            rw [owedAfter, zero, accepted]
            split_ifs <;> decide
      · rw [zeroAcks] at zero
        obtain ⟨strobe, none⟩ : exec.stb = false ∧ exec.acksNeeded = 0#10 := by
          simpa [counters] using zero
        have nothing : owed = 0 := pending 0 none (by decide)
        simp [owedAfter, accepted, strobe, nothing]

theorem Idles.owing (idles : exec.Idles) : exec.Owing 0 where
  lines := ⟨by simp [idles.cyc, idles.state], by simp [idles.stb, idles.state],
    by simp [idles.state]⟩
  counted cycle := by rw [idles.cyc] at cycle; cases cycle
  closed _ := rfl
  lastAck _ := Nat.zero_le _
  zeroAcks _ := rfl

/-- A clock of `WB_ACK` with nothing owed leaves it, unless `zero_acks` is only
now set. -/
theorem tick_ack (state : exec.state = .ack) (noErr : clock.bus.err = false) :
    (exec.tick clock).state =
        (if exec.lastAck && clock.bus.ack || exec.zeroAcks then .idle else .ack) ∧
      (exec.tick clock).zeroAcks = (!exec.stb && exec.acksNeeded == 0) := by
  simp only [tick, Exec.step, state, fromAck, noErr, Bool.or_false]
  exact ⟨trivial, rfl⟩

theorem Lines.idles (lines : exec.Lines) (state : exec.state = .idle) : exec.Idles :=
  ⟨state, by rw [lines.cyc, state]; rfl, by rw [lines.stb, state]; rfl⟩

/-- Nothing taken, nothing happens. -/
theorem Idles.tick_silent (idles : exec.Idles) (silent : exec.takes clock = []) :
    (exec.tick clock).Idles ∧ exec.results clock = [] := by
  have low : clock.iStb = false := by simpa [takes, busy, idles.state] using silent
  rw [results, tick, low, step_silent idles.state]
  exact ⟨⟨idles.state, rfl, rfl⟩, rfl⟩

theorem Idles.run (idles : exec.Idles) (silent : observed tick takes exec clocks = []) :
    (clocked tick exec clocks).Idles ∧ observed tick results exec clocks = [] := by
  induction clocks generalizing exec with
  | nil => exact ⟨idles, rfl⟩
  | cons clock rest ih =>
      obtain ⟨now, later⟩ := List.append_eq_nil_iff.mp silent
      obtain ⟨next, none⟩ := idles.tick_silent now
      obtain ⟨last, others⟩ := ih next later
      exact ⟨last, by rw [observed, none, others]; rfl⟩

/-- With nothing owed, `WB_ACK` is left within two clocks. -/
theorem settles (owing : exec.Owing 0) (state : exec.state = .ack ∨ exec.state = .idle)
    {first second : ExecClock} {rest : List ExecClock}
    (noErr : ∀ clock ∈ first :: second :: rest, clock.bus.err = false)
    (silent : observed tick takes exec (first :: second :: rest) = []) :
    (clocked tick exec (first :: second :: rest)).Idles := by
  rcases state with ack | idle
  · obtain ⟨next, zero⟩ := tick_ack ack (noErr first (.head _))
    have lines := owing.lines.step (noErr first (.head _))
      (by intro waits; rw [ack] at waits; cases waits)
    have cycle : exec.cyc = true := by rw [owing.lines.cyc, ack]; rfl
    have strobe : exec.stb = false := by rw [owing.lines.stb, ack]; rfl
    have none : exec.acksNeeded = 0#10 := by
      apply BitVec.eq_of_toNat_eq
      rw [owing.counted cycle]
      rfl
    obtain ⟨-, later⟩ := List.append_eq_nil_iff.mp silent
    split_ifs at next with done
    · exact ((lines.idles next).run later).1
    · have last := lines.step (noErr second (.tail _ (.head _)))
        (by intro waits; rw [next] at waits; cases waits)
      have idle := (tick_ack next (noErr second (.tail _ (.head _)))).1
      rw [zero, strobe, none] at idle
      refine ((last.idles ?_).run (List.append_eq_nil_iff.mp later).2).1
      rw [idle]
      simp
  · exact ((owing.lines.idles idle).run silent).1

/-! ### Reads -/

/-- A read of `count` words with `taken` of its requests accepted. -/
inductive Reading (start : BitVec 32) (inc : Bool) (count : Nat) : Nat → Exec → Prop where
  | request {taken : Nat} {exec : Exec} : exec.state = .readRequest → exec.cyc = true →
      exec.stb = true → exec.we = false → exec.inc = inc →
      exec.addr = strideAt start inc taken → taken + exec.len.toNat = count →
      0 < exec.len.toNat →
      (exec.singleReadRequest || exec.lastReadRequest) = decide (exec.len.toNat = 1) →
      Reading start inc count taken exec
  | ack {exec : Exec} : exec.state = .ack → exec.stb = false → exec.we = false →
      exec.cyc = true → exec.inc = inc → Reading start inc count count exec
  | idle {exec : Exec} : exec.Idles → Reading start inc count count exec

variable {start : BitVec 32} {inc : Bool} {count taken : Nat}

/-- Requests of the read are still to be made, the next is on the bus. -/
structure Asking (start : BitVec 32) (inc : Bool) (count taken : Nat) (exec : Exec) : Prop where
  state : exec.state = .readRequest
  cycle : exec.cyc = true
  strobe : exec.stb = true
  direction : exec.we = false
  kept : exec.inc = inc
  address : exec.addr = strideAt start inc taken
  left : taken + exec.len.toNat = count
  positive : 0 < exec.len.toNat
  flags : (exec.singleReadRequest || exec.lastReadRequest) = decide (exec.len.toNat = 1)

namespace Asking

theorem stepped (asking : Asking start inc count taken exec) (noErr : clock.bus.err = false) :
    exec.tick clock =
      { exec.counters clock.iStb clock.word clock.bus with
        state := if Reads.lastTaken exec clock.bus then .ack else .readRequest
        cyc := true
        stb := !Reads.lastTaken exec clock.bus
        outStb := clock.bus.ack
        outCodword := readData inc clock.bus.data
        addr := if inc && clock.unstalled then exec.addr + 1 else exec.addr } := by
  rw [tick, Reads.step_request clock.iStb clock.word asking.state asking.flags noErr, asking.kept]
  rfl

/-- The request made when the bus does not stall is the next of the read. -/
theorem requests_eq (asking : Asking start inc count taken exec) (clock : ExecClock) :
    exec.requests clock =
      ((readRequests start inc count).drop taken).take (if clock.unstalled then 1 else 0) := by
  have left := asking.left
  have positive := asking.positive
  have next : (readRequests start inc count).drop taken =
      .read exec.addr :: (readRequests start inc count).drop (taken + 1) := by
    rw [List.drop_eq_getElem_cons (by simp [readRequests]; omega)]
    simp [readRequests, asking.address]
  rw [next, requests, asking.cycle, asking.strobe, asking.direction, ExecClock.unstalled]
  cases clock.bus.stall <;> rfl

theorem results_eq (asking : Asking start inc count taken exec) (noErr : clock.bus.err = false) :
    exec.results clock =
      if clock.acked && exec.cyc then [readData inc clock.bus.data] else [] := by
  rw [results, asking.stepped noErr, asking.cycle, ExecClock.acked, Bool.and_true]
  rfl

/-- The last request goes out. -/
theorem last (asking : Asking start inc count taken exec) (noErr : clock.bus.err = false)
    (final : Reads.lastTaken exec clock.bus = true) :
    Reading start inc count (min count (taken + if clock.unstalled then 1 else 0))
      (exec.tick clock) := by
  have left := asking.left
  have stepped := asking.stepped noErr
  simp only [final, if_true, Bool.not_true] at stepped
  simp only [Reads.lastTaken, Bool.and_eq_true, Bool.not_eq_true', decide_eq_true_eq] at final
  have all : min count (taken + if clock.unstalled then 1 else 0) = count := by
    rw [ExecClock.unstalled, final.1, Bool.not_false, if_pos rfl]
    omega
  rw [all, stepped]
  exact .ack rfl rfl asking.direction rfl asking.kept

/-- More requests follow. -/
theorem more (asking : Asking start inc count taken exec) (noErr : clock.bus.err = false)
    (going : Reads.lastTaken exec clock.bus = false) :
    Asking start inc count (taken + if clock.unstalled then 1 else 0) (exec.tick clock) := by
  have left := asking.left
  have positive := asking.positive
  have stepped := asking.stepped noErr
  simp only [going, Bool.false_eq_true, if_false, Bool.not_false] at stepped
  have len : (exec.tick clock).len.toNat = exec.len.toNat - if clock.unstalled then 1 else 0 := by
    rw [stepped]
    refine (Reads.len_step clock.iStb clock.word clock.bus asking.strobe positive).trans ?_
    rw [ExecClock.unstalled]
    cases clock.bus.stall <;> rfl
  have some : (if clock.unstalled then 1 else 0) < exec.len.toNat := by
    simp only [Reads.lastTaken, Bool.and_eq_false_iff, Bool.not_eq_false',
      decide_eq_false_iff_not] at going
    rw [ExecClock.unstalled]
    rcases going with stall | many
    · rw [stall]
      exact positive
    · split <;> omega
  constructor
  case state => rw [stepped]
  case cycle => rw [stepped]
  case strobe => rw [stepped]
  case direction =>
    rw [stepped]
    exact asking.direction
  case kept =>
    rw [stepped]
    exact asking.kept
  case address =>
    rw [stepped]
    cases clock.unstalled with
    | true => simp [strideAt_succ, ← asking.address]
    | false => simp [asking.address]
  case left => omega
  case positive => omega
  case flags =>
    rw [len]
    rw [stepped]
    simp only [counters, asking.cycle, asking.strobe, Bool.not_true, Bool.false_and,
      Bool.false_or, Bool.true_and, Reads.last_lookahead, decide_eq_decide]
    rw [ExecClock.unstalled] at some ⊢
    cases stall : clock.bus.stall <;>
      simp only [stall, Bool.not_true, Bool.not_false, Bool.false_eq_true, if_true,
        if_false] at some ⊢ <;> omega

theorem reading (asking : Asking start inc count taken exec) :
    Reading start inc count taken exec :=
  .request asking.state asking.cycle asking.strobe asking.direction asking.kept asking.address
    asking.left asking.positive asking.flags

end Asking

/-- A clock of a read. It presents the word acknowledged, and takes the next
request when the bus does. -/
theorem Reading.step (reading : Reading start inc count taken exec)
    (noErr : clock.bus.err = false) (silent : exec.takes clock = []) :
    Reading start inc count (min count (taken + if clock.unstalled then 1 else 0))
        (exec.tick clock) ∧
      exec.requests clock =
        ((readRequests start inc count).drop taken).take (if clock.unstalled then 1 else 0) ∧
      exec.results clock =
        if clock.acked && exec.cyc then [readData inc clock.bus.data] else [] := by
  cases reading with
  | idle idles =>
      obtain ⟨stays, none⟩ := idles.tick_silent silent
      rw [requests_of_strobe idles.stb, none, idles.cyc, Bool.and_false]
      refine ⟨?_, ?_, rfl⟩
      · rw [Nat.min_eq_left (Nat.le_add_right _ _)]
        exact .idle stays
      · rw [List.drop_eq_nil_of_le (by simp [readRequests]), List.take_nil]
  | ack state strobe direction cycle kept =>
      rw [requests_of_strobe strobe, cycle, Bool.and_true]
      refine ⟨?_, ?_, ?_⟩
      · rw [Nat.min_eq_left (Nat.le_add_right _ _)]
        by_cases done : (exec.lastAck && clock.bus.ack || exec.zeroAcks) = true
        · refine .idle ⟨?_, ?_, ?_⟩ <;>
            simp only [tick, Exec.step, state, fromAck, noErr, done, Bool.or_false, if_true,
              Bool.not_true]
        · rw [Bool.not_eq_true] at done
          refine .ack ?_ ?_ ?_ ?_ ?_ <;>
            simp only [tick, Exec.step, state, fromAck, noErr, done, Bool.or_false, counters,
              direction, kept, Bool.false_eq_true, if_false, Bool.not_false]
      · rw [List.drop_eq_nil_of_le (by simp [readRequests]), List.take_nil]
      · simp only [results, out, tick, Exec.step, state, fromAck, noErr, direction, kept,
          ExecClock.acked, Bool.or_false, Bool.not_false, Bool.and_true, Bool.false_eq_true,
          if_false]
        rfl
  | request state cycle strobe direction kept address left positive flags =>
      have asking : Asking start inc count taken exec :=
        ⟨state, cycle, strobe, direction, kept, address, left, positive, flags⟩
      refine ⟨?_, asking.requests_eq clock, asking.results_eq noErr⟩
      cases final : Reads.lastTaken exec clock.bus with
      | true => exact asking.last noErr final
      | false =>
          have next := asking.more noErr final
          have inside := next.left
          rw [Nat.min_eq_right (by omega)]
          exact next.reading

theorem Reading.inBurst (reading : Reading start inc count taken exec) (clock : ExecClock) :
    exec.InBurst clock := by
  intro waits
  cases reading with
  | request state => rw [state] at waits; cases waits
  | ack state => rw [state] at waits; cases waits
  | idle idles => rw [idles.state] at waits; cases waits

theorem Reading.phase (reading : Reading start inc count taken exec) :
    exec.state = .readRequest ∧ taken < count ∨
      (exec.state = .ack ∨ exec.state = .idle) ∧ taken = count := by
  cases reading with
  | request state _ _ _ _ _ left => exact .inl ⟨state, by omega⟩
  | ack state => exact .inr ⟨.inl state, rfl⟩
  | idle idles => exact .inr ⟨.inr idles.state, rfl⟩

private theorem drop_min (start : BitVec 32) (inc : Bool) (count position : Nat) :
    (readRequests start inc count).drop (min count position) =
      (readRequests start inc count).drop position := by
  have length : (readRequests start inc count).length = count := by simp [readRequests]
  rcases Nat.le_total count position with past | inside
  · rw [Nat.min_eq_left past, List.drop_eq_nil_of_le length.le,
      List.drop_eq_nil_of_le (length.le.trans past)]
  · rw [Nat.min_eq_right inside]

/-- The requests do not depend on what comes back. -/
theorem Reading.run (reading : Reading start inc count taken exec)
    (noErr : ∀ clock ∈ clocks, clock.bus.err = false)
    (silent : observed tick takes exec clocks = []) :
    Reading start inc count (min count (taken + clocks.countP ExecClock.unstalled))
        (clocked tick exec clocks) ∧
      observed tick requests exec clocks =
        ((readRequests start inc count).drop taken).take
          (clocks.countP ExecClock.unstalled) := by
  induction clocks generalizing taken exec with
  | nil =>
      refine ⟨?_, (List.take_zero).symm⟩
      have inside : taken ≤ count := by
        rcases reading.phase with ⟨-, below⟩ | ⟨-, all⟩
        · exact below.le
        · exact all.le
      rw [List.countP_nil, Nat.add_zero, Nat.min_eq_right inside]
      exact reading
  | cons clock rest ih =>
      obtain ⟨now, later⟩ := List.append_eq_nil_iff.mp silent
      obtain ⟨next, presented, -⟩ := reading.step (noErr clock (.head _)) now
      obtain ⟨last, others⟩ :=
        ih next (fun other member => noErr other (.tail _ member)) later
      have counted : (clock :: rest).countP ExecClock.unstalled =
          (if clock.unstalled then 1 else 0) + rest.countP ExecClock.unstalled := by
        rw [List.countP_cons, Nat.add_comm]
      refine ⟨?_, ?_⟩
      · have total : min count (min count (taken + if clock.unstalled then 1 else 0) +
            rest.countP ExecClock.unstalled) =
            min count (taken + (clock :: rest).countP ExecClock.unstalled) := by
          rw [counted]
          omega
        rw [← total]
        exact last
      · rw [observed, presented, others, drop_min, counted, List.take_add, List.drop_drop]

theorem Fair.noErr (fair : Fair owed exec clocks) : ∀ clock ∈ clocks, clock.bus.err = false := by
  induction clocks generalizing owed exec with
  | nil => intro clock member; cases member
  | cons clock rest ih =>
      intro other member
      rcases List.mem_cons.mp member with rfl | later
      · exact fair.1.noErr
      · exact ih fair.2.2 other later

/-- What comes back is what was acknowledged. -/
theorem Reading.results_run (reading : Reading start inc count taken exec)
    (owing : exec.Owing owed) (fair : Fair owed exec clocks)
    (silent : observed tick takes exec clocks = []) :
    (clocked tick exec clocks).Owing (outstanding owed exec clocks) ∧
      observed tick results exec clocks =
        (clocks.filter ExecClock.acked).map fun clock => readData inc clock.bus.data := by
  induction clocks generalizing taken owed exec with
  | nil => exact ⟨owing, rfl⟩
  | cons clock rest ih =>
      obtain ⟨now, later⟩ := List.append_eq_nil_iff.mp silent
      obtain ⟨fine, small, others⟩ := fair
      obtain ⟨next, -, presented⟩ := reading.step fine.noErr now
      obtain ⟨last, back⟩ :=
        ih next (owing.step fine small (reading.inBurst clock)) others later
      refine ⟨last, ?_⟩
      have cycle : clock.acked = true → exec.cyc = true := by
        intro ack
        have legal := fine.ack ack
        cases open' : exec.cyc with
        | true => rfl
        | false =>
            rw [owing.closed open', accepted, open'] at legal
            cases legal
      rw [observed, presented, back, List.filter_cons]
      cases ack : clock.acked with
      | false => rfl
      | true =>
          rw [cycle ack]
          rfl

/-! ### Writes -/

/-- A burst of writes with `made` of them taken by the bus, and those codewords
taken that are not; `ended` once the end of writes has been. -/
inductive Writing (start : BitVec 32) (inc : Bool) : Nat → List (BitVec 32) → Bool → Exec → Prop
    where
  | request {made : Nat} {data : BitVec 32} {exec : Exec} : exec.state = .writeRequest →
      exec.we = true → exec.inc = inc → exec.addr = strideAt start inc made →
      exec.data = data → Writing start inc made [data] false exec
  | wait {made : Nat} {exec : Exec} : exec.state = .waitOnNextWrite → exec.we = true →
      exec.inc = inc → exec.addr = strideAt start inc made → Writing start inc made [] false exec
  | ack {made : Nat} {exec : Exec} : exec.state = .ack → exec.we = true →
      Writing start inc made [] true exec
  | idle {made : Nat} {exec : Exec} : exec.state = .idle → Writing start inc made [] true exec

variable {made : Nat} {pending : List (BitVec 32)} {ended : Bool}

theorem tick_write (state : exec.state = .writeRequest) (noErr : clock.bus.err = false) :
    exec.tick clock = { exec.counters clock.iStb clock.word clock.bus with
      state := if clock.bus.stall then .writeRequest else .waitOnNextWrite
      cyc := true
      stb := clock.bus.stall
      outStb := !clock.bus.stall
      outCodword := report 2 clock.bus.data
      addr := if exec.inc && !clock.bus.stall then exec.addr + 1 else exec.addr } := by
  simp only [tick, Exec.step, state, fromWrite, noErr]
  cases clock.bus.stall <;> rfl

/-- A clock of a burst of writes on which no codeword is taken. -/
theorem Writing.quiet (writing : Writing start inc made pending ended exec) (lines : exec.Lines)
    (noErr : clock.bus.err = false) (silent : exec.takes clock = []) :
    ∃ later, Writing start inc (made + (exec.requests clock).length) later ended
        (exec.tick clock) ∧
      writeRequests start inc made pending =
        exec.requests clock ++
          writeRequests start inc (made + (exec.requests clock).length) later ∧
      exec.results clock = (exec.requests clock).map fun _ => report 2 clock.bus.data := by
  cases writing with
  | request state direction kept address held =>
      have cycle : exec.cyc = true := by rw [lines.cyc, state]; rfl
      have strobe : exec.stb = true := by rw [lines.stb, state]; rfl
      have stepped := tick_write state noErr
      cases stall : clock.bus.stall with
      | true =>
          have none : exec.requests clock = [] := by simp [requests, stall]
          rw [stall] at stepped
          rw [none, results, stepped]
          refine ⟨[_], ?_, rfl, rfl⟩
          refine .request rfl direction kept ?_ held
          rw [List.length_nil, Nat.add_zero, ← address]
          simp
      | false =>
          have one : exec.requests clock = [.write exec.addr exec.data] := by
            simp [requests, cycle, strobe, stall, direction]
          rw [stall] at stepped
          rw [one, results, stepped]
          refine ⟨[], ?_, by rw [address, held]; rfl, rfl⟩
          refine .wait rfl direction kept ?_
          change (if exec.inc && !false then exec.addr + 1 else exec.addr) =
            strideAt start inc (made + 1)
          rw [strideAt_succ, ← address, kept, Bool.not_false, Bool.and_true]
  | wait state direction kept address =>
      have strobe : exec.stb = false := by rw [lines.stb, state]; rfl
      have low : clock.iStb = false := by simpa [takes, busy, state] using silent
      have stepped : exec.tick clock = { exec.counters clock.iStb clock.word clock.bus with
          outCodword := report 5 clock.bus.data
          outStb := false
          data := codData clock.word
          cyc := true
          stb := false } := by
        simp [tick, Exec.step, state, fromWait, newErr, newWr, eow, low, noErr]
      rw [requests_of_strobe strobe, results, stepped]
      exact ⟨[], .wait state direction kept address, rfl, rfl⟩
  | ack state direction =>
      have strobe : exec.stb = false := by rw [lines.stb, state]; rfl
      have hushed : exec.results clock = [] := by
        simp [results, out, tick, Exec.step, state, fromAck, noErr, direction]
      have still : (exec.tick clock).we = true := by
        simp [tick, Exec.step, state, fromAck, counters, direction]
      have next := (tick_ack state noErr).1
      rw [requests_of_strobe strobe, hushed]
      refine ⟨[], ?_, rfl, rfl⟩
      split_ifs at next with done
      · exact .idle next
      · exact .ack next still
  | idle state =>
      obtain ⟨stays, none⟩ := (lines.idles state).tick_silent silent
      rw [requests_of_strobe (lines.idles state).stb, none]
      exact ⟨[], .idle stays.state, rfl, rfl⟩

/-- The next word of the burst. -/
theorem Writing.word (writing : Writing start inc made pending false exec) (lines : exec.Lines)
    (noErr : clock.bus.err = false) (taken : exec.takes clock = [clock.word])
    (code : clock.word.extractLsb' 33 3 = 0b011) :
    pending = [] ∧ exec.requests clock = [] ∧ exec.results clock = [] ∧
      Writing start inc made [codData clock.word] false (exec.tick clock) := by
  cases writing with
  | request state => simp [takes, busy, state] at taken
  | wait state direction kept address =>
      have strobe : exec.stb = false := by rw [lines.stb, state]; rfl
      have high : clock.iStb = true := by simpa [takes, busy, state] using taken
      have isNew : exec.newWr true clock.word = true := by
        simp [newWr, busy, state, extract_34_2_eq, code]
      have stepped : exec.tick clock = { exec.counters clock.iStb clock.word clock.bus with
          outCodword := report 5 clock.bus.data
          outStb := false
          data := codData clock.word
          cyc := true
          state := .writeRequest
          stb := true } := by
        simp only [tick, high, Exec.step, state, fromWait, noErr, isNew]
        simp [newErr, code]
      rw [requests_of_strobe strobe, results, stepped]
      exact ⟨rfl, rfl, rfl, .request rfl direction kept address rfl⟩

theorem Writing.ends (writing : Writing start inc made pending false exec) (lines : exec.Lines)
    (noErr : clock.bus.err = false) (taken : exec.takes clock = [clock.word])
    (code : decode clock.word = .endOfWrites) :
    pending = [] ∧ exec.requests clock = [] ∧ exec.results clock = [] ∧
      Writing start inc made [] true (exec.tick clock) := by
  cases writing with
  | request state => simp [takes, busy, state] at taken
  | wait state direction kept address =>
      have strobe : exec.stb = false := by rw [lines.stb, state]; rfl
      have high : clock.iStb = true := by simpa [takes, busy, state] using taken
      have six := decode_eq_endOfWrites code
      have notNew : exec.newWr true clock.word = false := by
        simp only [newWr, extract_34_2, ← extract_30_6, six]
        simp
      have last : exec.eow true clock.word = true := by simp [eow, busy, state, six]
      have stepped : exec.tick clock = { exec.counters clock.iStb clock.word clock.bus with
          outCodword := report 5 clock.bus.data
          outStb := false
          data := codData clock.word
          cyc := true
          state := .ack
          stb := false } := by
        simp only [tick, high, Exec.step, state, fromWait, noErr, notNew, last]
        simp [newErr, six]
      rw [requests_of_strobe strobe, results, stepped]
      exact ⟨rfl, rfl, rfl, .ack rfl direction⟩

theorem inBurst_of_takes (fine : ∀ word ∈ exec.takes clock,
    word.extractLsb' 33 3 = 0b011 ∨ decode word = .endOfWrites) : exec.InBurst clock := by
  intro waits
  cases strobe : clock.iStb with
  | false => simp [newErr]
  | true =>
      rcases fine clock.word (by simp [takes, strobe, busy, waits]) with word | ends
      · simp [newErr, word]
      · simp [newErr, decode_eq_endOfWrites ends]

theorem Writing.phase (writing : Writing start inc made pending ended exec) :
    exec.state = .writeRequest ∧ pending.length = 1 ∨
      exec.state ≠ .writeRequest ∧ pending = [] := by
  cases writing with
  | request state => exact .inl ⟨state, rfl⟩
  | wait state => exact .inr ⟨by rw [state]; decide, rfl⟩
  | ack state => exact .inr ⟨by rw [state]; decide, rfl⟩
  | idle state => exact .inr ⟨by rw [state]; decide, rfl⟩

theorem Writing.ended_iff (writing : Writing start inc made pending ended exec) :
    ended = true ↔ exec.state = .ack ∨ exec.state = .idle := by
  cases writing with
  | request state => simp [state]
  | wait state => simp [state]
  | ack state => simp [state]
  | idle state => simp [state]

/-- What an acknowledged request gives back at once. -/
def writeReports (exec : Exec) (clock : ExecClock) : List Word :=
  (exec.requests clock).map fun _ => report 2 clock.bus.data

/-- Clocks of a burst of writes on which `words` are taken, the end of writes apart. -/
structure Wrote (start : BitVec 32) (inc : Bool) (made : Nat) (pending : List (BitVec 32))
    (words : List Word) (exec : Exec) (clocks : List ExecClock) (later : List (BitVec 32))
    (closed : Bool) : Prop where
  writing : Writing start inc (made + (observed tick requests exec clocks).length) later closed
    (clocked tick exec clocks)
  asked : writeRequests start inc made (pending ++ words.map codData) =
    observed tick requests exec clocks ++
      writeRequests start inc (made + (observed tick requests exec clocks).length) later
  answered : observed tick results exec clocks = observed tick writeReports exec clocks

variable {later : List (BitVec 32)} {closed : Bool} {words : List Word}

theorem Wrote.single
    (writing : Writing start inc (made + (exec.requests clock).length) later closed
      (exec.tick clock))
    (asked : writeRequests start inc made (pending ++ words.map codData) =
      exec.requests clock ++ writeRequests start inc (made + (exec.requests clock).length) later)
    (answered : exec.results clock = exec.writeReports clock) :
    Wrote start inc made pending words exec [clock] later closed := by
  have one : observed tick requests exec [clock] = exec.requests clock := List.append_nil _
  refine ⟨?_, ?_, ?_⟩
  · rw [one]
    exact writing
  · rw [one]
    exact asked
  · rw [observed, observed, answered]
    rfl

theorem Wrote.size (wrote : Wrote start inc made pending words exec clocks later closed) :
    (observed tick requests exec clocks).length + later.length =
      pending.length + words.length := by
  have sizes := congrArg List.length wrote.asked
  rw [length_writeRequests, List.length_append, List.length_append, length_writeRequests,
    List.length_map] at sizes
  exact sizes.symm

/-- Clocks after clocks. -/
theorem Wrote.append {others : List Word} {after : List ExecClock} {last : List (BitVec 32)}
    {done : Bool} (first : Wrote start inc made pending words exec clocks later closed)
    (second : Wrote start inc (made + (observed tick requests exec clocks).length) later others
      (clocked tick exec clocks) after last done) :
    Wrote start inc made pending (words ++ others) exec (clocks ++ after) last done := by
  have size := first.size
  constructor
  case writing =>
    rw [observed_append, clocked_append, List.length_append, ← Nat.add_assoc]
    exact second.writing
  case asked =>
    have whole := second.asked
    rw [writeRequests_append] at whole
    rw [List.map_append, ← List.append_assoc, writeRequests_append, first.asked,
      observed_append, List.length_append, List.append_assoc, List.append_assoc, List.length_append,
      List.length_map, ← size, ← Nat.add_assoc, whole, ← Nat.add_assoc]
  case answered =>
    rw [observed_append, observed_append, first.answered, second.answered]

theorem Writing.wrote_quiet (writing : Writing start inc made pending ended exec)
    (lines : exec.Lines) (noErr : clock.bus.err = false) (silent : exec.takes clock = []) :
    ∃ later, Wrote start inc made pending [] exec [clock] later ended := by
  obtain ⟨later, next, asked, presented⟩ := writing.quiet lines noErr silent
  refine ⟨later, .single next ?_ presented⟩
  rw [List.map_nil, List.append_nil]
  exact asked

theorem Writing.wrote_word (writing : Writing start inc made pending false exec)
    (lines : exec.Lines) (noErr : clock.bus.err = false) (taken : exec.takes clock = [clock.word])
    (code : clock.word.extractLsb' 33 3 = 0b011) :
    Wrote start inc made pending [clock.word] exec [clock] [codData clock.word] false := by
  obtain ⟨rfl, none, hushed, next⟩ := writing.word lines noErr taken code
  refine .single ?_ ?_ ?_
  · rw [none]
    exact next
  · rw [none]
    rfl
  · rw [hushed, writeReports, none]
    rfl

theorem Writing.wrote_ends (writing : Writing start inc made pending false exec)
    (lines : exec.Lines) (noErr : clock.bus.err = false) (taken : exec.takes clock = [clock.word])
    (code : decode clock.word = .endOfWrites) :
    Wrote start inc made pending [] exec [clock] [] true := by
  obtain ⟨rfl, none, hushed, next⟩ := writing.ends lines noErr taken code
  refine .single ?_ ?_ ?_
  · rw [none]
    exact next
  · rw [none]
    rfl
  · rw [hushed, writeReports, none]
    rfl

theorem Writing.run {more ends : List Word}
    (writing : Writing start inc made pending ended exec) (owing : exec.Owing owed)
    (fair : Fair owed exec clocks) (taken : observed tick takes exec clocks = more ++ ends)
    (words : ∀ word ∈ more, word.extractLsb' 33 3 = 0b011)
    (closing : ends = [] ∨ ∃ word, ends = [word] ∧ decode word = .endOfWrites)
    (once : ended = true → more = [] ∧ ends = []) :
    (∃ later, Wrote start inc made pending more exec clocks later (ended || !ends.isEmpty)) ∧
      (clocked tick exec clocks).Owing (outstanding owed exec clocks) := by
  induction clocks generalizing made pending ended owed exec more ends with
  | nil =>
      obtain ⟨rfl, rfl⟩ := List.append_eq_nil_iff.mp taken.symm
      refine ⟨⟨pending, ?_, ?_, rfl⟩, owing⟩
      · rw [List.isEmpty_nil, Bool.not_true, Bool.or_false]
        exact writing
      · rw [List.map_nil, List.append_nil]
        rfl
  | cons clock rest ih =>
      obtain ⟨fine, small, others⟩ := fair
      rw [observed] at taken
      rcases exec.takes_cases clock with now | now
      · have inBurst : exec.InBurst clock := by
          refine inBurst_of_takes fun word member => ?_
          rw [now] at member
          cases member
        rw [now, List.nil_append] at taken
        obtain ⟨later, first⟩ := writing.wrote_quiet owing.lines fine.noErr now
        obtain ⟨⟨last, second⟩, owed'⟩ :=
          ih first.writing (owing.step fine small inBurst) others taken words closing once
        exact ⟨⟨last, first.append second⟩, owed'⟩
      · have goesOn : ended = false := by
          cases ended with
          | false => rfl
          | true =>
              obtain ⟨rfl, rfl⟩ := once rfl
              rw [now] at taken
              cases taken
        subst goesOn
        rw [now, List.singleton_append] at taken
        have inBurst (code : clock.word.extractLsb' 33 3 = 0b011 ∨
            decode clock.word = .endOfWrites) : exec.InBurst clock := by
          refine inBurst_of_takes fun word member => ?_
          rw [now, List.mem_singleton] at member
          rw [member]
          exact code
        cases more with
        | nil =>
            -- the end of writes
            rw [List.nil_append] at taken
            obtain rfl | ⟨word, rfl, code⟩ := closing
            · cases taken
            obtain ⟨same, after⟩ := List.cons.inj taken
            rw [← same] at code
            have first := writing.wrote_ends owing.lines fine.noErr now code
            obtain ⟨⟨last, second⟩, owed'⟩ := ih first.writing
              (owing.step fine small (inBurst (.inr code))) others
              (after.trans (List.append_nil []).symm) words (.inl rfl) fun _ => ⟨rfl, rfl⟩
            exact ⟨⟨last, first.append second⟩, owed'⟩
        | cons word more =>
            rw [List.cons_append] at taken
            obtain ⟨rfl, after⟩ := List.cons.inj taken
            have code := words clock.word (.head _)
            have first := writing.wrote_word owing.lines fine.noErr now code
            obtain ⟨⟨last, second⟩, owed'⟩ := ih first.writing
              (owing.step fine small (inBurst (.inl code))) others after
              (fun word member => words word (.tail _ member)) closing
              fun never => absurd never Bool.false_ne_true
            exact ⟨⟨last, first.append second⟩, owed'⟩

/-! ### Bursts -/

/-- A read of `count` words, begun at `command`, after some more clocks. -/
structure ReadBurst (exec : Exec) (command : ExecClock) (clocks : List ExecClock) (inc : Bool)
    (count : Nat) : Prop where
  asked : observed tick requests exec (command :: clocks) =
    (readRequests exec.addr inc count).take (clocks.countP ExecClock.unstalled)
  answered : observed tick results exec (command :: clocks) =
    (if exec.newAddr then [addressWord exec.addr] else []) ++
      (clocks.filter ExecClock.acked).map fun clock => readData inc clock.bus.data
  cycle : clocks.countP ExecClock.acked < count →
    (clocked tick exec (command :: clocks)).cyc = true
  idle : ∀ before after, clocks = before ++ after → before.countP ExecClock.acked = count →
    2 ≤ after.length → (clocked tick exec (command :: clocks)).Idles

theorem read_codeword (idles : exec.Idles) {command : ExecClock} (strobe : command.iStb = true)
    {len : BitVec 10} (read : decode command.word = .read inc len) (positive : 0 < len.toNat) :
    Reading exec.addr inc len.toNat 0 (exec.tick command) ∧ exec.requests command = [] ∧
      exec.results command = if exec.newAddr then [addressWord exec.addr] else [] := by
  have stepped := step_idle idles.state command.word command.bus
  obtain ⟨kept, length, direction⟩ := idling_read idles.stb read true command.bus
  have field := (decode_eq_read read).2
  rw [read] at stepped
  dsimp only at stepped
  have len' : (exec.tick command).len = len := by
    rw [tick, strobe, stepped]
    exact length
  refine ⟨?_, requests_of_strobe idles.stb command, ?_⟩
  · refine .request ?_ ?_ ?_ ?_ ?_ ?_ ?_ ?_ ?_
    · rw [tick, strobe, stepped]
    · rw [tick, strobe, stepped]
    · rw [tick, strobe, stepped]
    · rw [tick, strobe, stepped]
      exact direction
    · rw [tick, strobe, stepped]
      exact kept
    · rw [tick, strobe, stepped, strideAt_zero]
      rfl
    · rw [len', Nat.zero_add]
    · rw [len']
      exact positive
    · rw [len', tick, strobe, stepped]
      simp only [idling, counters, idles.cyc, idles.stb, field]
      simp only [Bool.not_false, Bool.true_and, Bool.false_and, Bool.or_false]
      rw [Bool.eq_iff_iff, beq_iff_eq, decide_eq_true_iff]
      exact BitVec.toNat_inj.symm
  · rw [results, tick, strobe, stepped]
    rfl

theorem two_at_least {list : List ExecClock} (enough : 2 ≤ list.length) :
    ∃ first second rest, list = first :: second :: rest := by
  rcases list with _ | ⟨first, _ | ⟨second, rest⟩⟩
  · cases enough
  · exact absurd enough (by decide : ¬ 2 ≤ 1)
  · exact ⟨first, second, rest, rfl⟩

theorem Idles.started (idles : exec.Idles) {command : ExecClock}
    (fair : Fair 0 exec (command :: clocks)) :
    (exec.tick command).Owing 0 ∧ Fair 0 (exec.tick command) clocks := by
  obtain ⟨now, small, later⟩ := fair
  have inBurst : exec.InBurst command := by
    intro waits
    rw [idles.state] at waits
    cases waits
  have owing := idles.owing.step now small inBurst
  have nothing : owedAfter 0 exec command.bus = 0 := by
    simp [owedAfter, accepted, idles.cyc]
  rw [nothing] at owing later
  exact ⟨owing, later⟩

theorem Owing.idle (owing : exec.Owing owed) (low : exec.cyc = false) : exec.state = .idle := by
  have line := owing.lines.cyc.symm.trans low
  simpa using line

/-- While results are missing the bus cycle goes on: an idle circuit has made every
request and seen every acknowledgement. -/
theorem Reading.holds_cycle (reading : Reading start inc count 0 exec) (owing : exec.Owing 0)
    (fair : Fair 0 exec clocks) (silent : observed tick takes exec clocks = [])
    (early : clocks.countP ExecClock.acked < count) : (clocked tick exec clocks).cyc = true := by
  obtain ⟨last, requested⟩ := reading.run fair.noErr silent
  obtain ⟨owed, -⟩ := reading.results_run owing fair silent
  by_contra closed
  rw [Bool.not_eq_true] at closed
  rcases last.phase with ⟨state, -⟩ | ⟨-, all⟩
  · rw [owed.idle closed] at state
    cases state
  · have balance := outstanding_add fair
    rw [owed.closed closed, requested, List.length_take, List.length_drop] at balance
    simp only [readRequests, List.length_map, List.length_range] at balance
    omega

/-- Two clocks after the last result the circuit is idle. -/
theorem Reading.comes_back {before after : List ExecClock}
    (reading : Reading start inc count 0 exec) (owing : exec.Owing 0)
    (fair : Fair 0 exec (before ++ after))
    (silent : observed tick takes exec (before ++ after) = [])
    (all : before.countP ExecClock.acked = count) (enough : 2 ≤ after.length) :
    (clocked tick exec (before ++ after)).Idles := by
  obtain ⟨early, late⟩ := fair.append
  rw [observed_append, List.append_eq_nil_iff] at silent
  obtain ⟨mid, made⟩ := reading.run early.noErr silent.1
  obtain ⟨midOwed, -⟩ := reading.results_run owing early silent.1
  have balance := outstanding_add early
  rw [all, made, List.length_take, List.length_drop] at balance
  simp only [readRequests, List.length_map, List.length_range] at balance
  have settled : outstanding 0 exec before = 0 := by omega
  rw [settled] at midOwed
  rcases mid.phase with ⟨-, below⟩ | ⟨state, -⟩
  · omega
  · rw [clocked_append]
    obtain ⟨first, second, rest, rfl⟩ := two_at_least enough
    exact settles midOwed state late.noErr silent.2

theorem read_burst (idles : exec.Idles) {command : ExecClock} (strobe : command.iStb = true)
    (fair : Fair 0 exec (command :: clocks)) {len : BitVec 10}
    (read : decode command.word = .read inc len) (positive : 0 < len.toNat)
    (silent : observed tick takes (exec.tick command) clocks = []) :
    ReadBurst exec command clocks inc len.toNat := by
  obtain ⟨start, none, announced⟩ := read_codeword idles strobe read positive
  obtain ⟨owing, later⟩ := idles.started fair
  obtain ⟨-, requested⟩ := start.run later.noErr silent
  obtain ⟨-, back⟩ := start.results_run owing later silent
  refine ⟨?_, ?_, start.holds_cycle owing later silent, ?_⟩
  · rw [observed, none, requested]
    rfl
  · rw [observed, announced, back]
  · rintro before after rfl all enough
    exact start.comes_back owing later silent all enough

/-- A burst of writes, begun at `command`, after some more clocks: `words` are
taken, and the end of writes if `closed`. -/
structure WriteBurst (exec : Exec) (command : ExecClock) (clocks : List ExecClock)
    (words : List Word) (closed : Bool) : Prop where
  asked : observed tick requests exec (command :: clocks) =
    (writeRequests exec.addr (command.word.getLsbD 30) 0 (words.map codData)).take
      (words.length -
        if (clocked tick exec (command :: clocks)).state = .writeRequest then 1 else 0)
  complete : closed = true →
    observed tick requests exec (command :: clocks) =
      writeRequests exec.addr (command.word.getLsbD 30) 0 (words.map codData)
  goesOn : (clocked tick exec (command :: clocks)).state = .writeRequest → ∀ clock : ExecClock,
    clock.bus.err = false → clock.unstalled = true →
      ((clocked tick exec (command :: clocks)).tick clock).busy = false
  answered : observed tick results exec (command :: clocks) =
    observed tick writeReports exec (command :: clocks)
  cycle : closed = false ∨ clocks.countP ExecClock.acked < words.length →
    (clocked tick exec (command :: clocks)).cyc = true
  idle : closed = true → ∀ before after, clocks = before ++ after →
    observed tick takes (clocked tick exec (command :: before)) after = [] →
    before.countP ExecClock.acked = words.length → 2 ≤ after.length →
      (clocked tick exec (command :: clocks)).Idles

theorem decode_word {word : Word} (code : word.extractLsb' 33 3 = 0b011) :
    decode word = .write (word.getLsbD 30) (codData word) := by
  have high : word.extractLsb' 32 4 ≠ 0b0000 := extract_32_4_ne word (by rw [code]; decide)
  have two : word.extractLsb' 34 2 = 0b01 := by rw [extract_34_2_eq, code]; rfl
  rw [decode, if_neg high, if_neg (by rw [code]; decide), if_pos two]

theorem write_codeword (idles : exec.Idles) {command : ExecClock} (strobe : command.iStb = true)
    (code : command.word.extractLsb' 33 3 = 0b011) :
    Writing exec.addr (command.word.getLsbD 30) 0 [codData command.word] false
        (exec.tick command) ∧
      exec.requests command = [] ∧ exec.results command = [] := by
  have meaning := decode_word code
  have stepped := step_idle idles.state command.word command.bus
  obtain ⟨kept, held, direction⟩ := exec.idling_write meaning
    (exec.counters true command.word command.bus)
  rw [meaning] at stepped
  dsimp only at stepped
  refine ⟨?_, requests_of_strobe idles.stb command, ?_⟩
  · rw [tick, strobe, stepped]
    refine .request rfl direction kept ?_ held
    rw [strideAt_zero]
    rfl
  · rw [results, tick, strobe, stepped]
    rfl

section Wrote

variable {data : BitVec 32}

theorem Wrote.left_length (wrote : Wrote start inc made pending words exec clocks later closed) :
    later.length = if (clocked tick exec clocks).state = .writeRequest then 1 else 0 := by
  rcases wrote.writing.phase with ⟨state, one⟩ | ⟨other, rfl⟩
  · rw [if_pos state, one]
  · rw [if_neg other]
    rfl

theorem Wrote.complete (wrote : Wrote start inc made pending words exec clocks later true) :
    later = [] := by
  rcases wrote.writing.phase with ⟨state, -⟩ | ⟨-, none⟩
  · rcases wrote.writing.ended_iff.mp rfl with other | other <;>
      rw [other] at state <;> cases state
  · exact none

/-- While the burst goes on, or acknowledgements are missing, so does the bus cycle. -/
theorem Wrote.holds_cycle (wrote : Wrote start inc 0 [data] words exec clocks later closed)
    (owed : (clocked tick exec clocks).Owing (outstanding 0 exec clocks))
    (fair : Fair 0 exec clocks)
    (missing : closed = false ∨ clocks.countP ExecClock.acked < words.length + 1) :
    (clocked tick exec clocks).cyc = true := by
  by_contra low
  rw [Bool.not_eq_true] at low
  have ended := wrote.writing.ended_iff.mpr (.inr (owed.idle low))
  rcases missing with unclosed | early
  · rw [ended] at unclosed
    cases unclosed
  · subst ended
    have balance := outstanding_add fair
    have size := wrote.size
    rw [owed.closed low] at balance
    rw [wrote.complete] at size
    simp only [List.length_nil, List.length_singleton] at size
    omega

theorem Wrote.comes_back {before after : List ExecClock}
    (wrote : Wrote start inc 0 [data] words exec before later true)
    (owed : (clocked tick exec before).Owing (outstanding 0 exec before))
    (fair : Fair 0 exec (before ++ after))
    (silent : observed tick takes (clocked tick exec before) after = [])
    (all : before.countP ExecClock.acked = words.length + 1) (enough : 2 ≤ after.length) :
    (clocked tick exec (before ++ after)).Idles := by
  obtain ⟨early, late⟩ := fair.append
  have balance := outstanding_add early
  have size := wrote.size
  simp only [List.length_singleton] at size
  have settled : outstanding 0 exec before = 0 := by omega
  rw [settled] at owed
  rw [clocked_append]
  obtain ⟨first, second, rest, rfl⟩ := two_at_least enough
  exact settles owed (wrote.writing.ended_iff.mp rfl) late.noErr silent

end Wrote

theorem write_burst (idles : exec.Idles) {command : ExecClock} (strobe : command.iStb = true)
    (fair : Fair 0 exec (command :: clocks))
    (code : command.word.extractLsb' 33 3 = 0b011) {more ends : List Word}
    (words : ∀ word ∈ more, word.extractLsb' 33 3 = 0b011)
    (closing : ends = [] ∨ ∃ word, ends = [word] ∧ decode word = .endOfWrites)
    (taken : observed tick takes (exec.tick command) clocks = more ++ ends) :
    WriteBurst exec command clocks (command.word :: more) (!ends.isEmpty) := by
  obtain ⟨start, none, hushed⟩ := write_codeword idles strobe code
  obtain ⟨owing, later⟩ := idles.started fair
  obtain ⟨⟨left, wrote⟩, owed⟩ :=
    start.run owing later taken words closing fun never => absurd never Bool.false_ne_true
  rw [Bool.false_or] at wrote
  have asked := wrote.asked
  have made : observed tick requests exec (command :: clocks) =
      observed tick requests (exec.tick command) clocks := by
    rw [observed, none]
    rfl
  refine ⟨?_, fun closed => ?_, fun state clock fine free => ?_, ?_, fun missing => ?_, ?_⟩
  · have size := wrote.size
    rw [List.length_singleton] at size
    rw [made, clocked_cons, ← wrote.left_length, List.length_cons]
    change _ = (writeRequests _ _ 0 ([codData command.word] ++ more.map codData)).take _
    rw [asked, show more.length + 1 - left.length =
      (observed tick requests (exec.tick command) clocks).length by omega, List.take_left]
  · rw [closed] at wrote
    rw [wrote.complete, writeRequests, List.append_nil] at asked
    rw [made, ← asked]
    rfl
  · rw [tick_write state fine, busy]
    have taken' : clock.bus.stall = false := by simpa [ExecClock.unstalled] using free
    rw [taken']
    rfl
  · rw [observed, observed, hushed, wrote.answered, writeReports, none]
    rfl
  · exact wrote.holds_cycle owed later missing
  · rintro closed before after rfl silent all enough
    rw [observed_append] at taken
    rw [clocked_cons] at silent
    rw [silent, List.append_nil] at taken
    obtain ⟨⟨left', mid⟩, midOwed⟩ := start.run owing later.append.1 taken words closing
      fun never => absurd never Bool.false_ne_true
    rw [Bool.false_or, closed] at mid
    exact mid.comes_back midOwed later silent all enough

/-- Both kinds of burst, from `WB_IDLE` back to it. -/
theorem bursts_answered (idles : exec.Idles) {command : ExecClock} (strobe : command.iStb = true)
    (fair : Fair 0 exec (command :: clocks)) :
    (∀ inc len, decode command.word = .read inc len → 0 < len.toNat →
      observed tick takes (exec.tick command) clocks = [] →
      ReadBurst exec command clocks inc len.toNat) ∧
    (∀ more ends, (∀ word ∈ command.word :: more, word.extractLsb' 33 3 = 0b011) →
      (ends = [] ∨ ∃ word, ends = [word] ∧ decode word = .endOfWrites) →
      observed tick takes (exec.tick command) clocks = more ++ ends →
      WriteBurst exec command clocks (command.word :: more) (!ends.isEmpty)) := by
  refine ⟨fun inc len read positive silent => ?_, fun more ends words closing taken => ?_⟩
  · exact read_burst idles strobe fair read positive silent
  · exact write_burst idles strobe fair (words _ (.head _))
      (fun word member => words word (.tail _ member)) closing taken

/-- `wbuexec` after its reset. -/
def reset : Exec :=
  ⟨.idle, false, false, false, 0, 0, true, report 3 0, 0, 0, false, true, false, false, false, true⟩

/-- A clock without a codeword. -/
def answer (stall ack : Bool) (data : BitVec 32) : ExecClock := ⟨false, 0, ⟨stall, ack, false, data⟩⟩

def given (word : Word) : ExecClock := ⟨true, word, ⟨false, false, false, 0⟩⟩

instance (owed : Nat) (exec : Exec) (bus : Bus) : Decidable (bus.Fair owed exec) :=
  decidable_of_iff (bus.err = false ∧ (bus.ack = true → 0 < owed + exec.accepted bus))
    ⟨fun fair => ⟨fair.1, fair.2⟩, fun fair => ⟨fair.noErr, fair.ack⟩⟩

instance decidableFair : (owed : Nat) → (exec : Exec) → (clocks : List ExecClock) →
    Decidable (Fair owed exec clocks)
  | _, _, [] => inferInstanceAs (Decidable True)
  | owed, exec, clock :: rest =>
      @instDecidableAnd _ _ inferInstance (@instDecidableAnd _ _ inferInstance
        (decidableFair (owedAfter owed exec clock.bus) (exec.tick clock) rest))

def endWord : Word := (0x2e : Six) ++ (0 : BitVec 30)

/-- A read of two words that the bus stalls once, and a burst of one write. -/
theorem two_words_read_one_written :
    ReadBurst reset (given (readWord 1 2))
        [answer true false 0, answer false true 7, answer false false 0, answer false true 8]
        true 2 ∧
      WriteBurst reset (given (flagged 0b011 1 5))
        [answer true false 0, answer false false 0, given endWord, answer false true 0]
        [flagged 0b011 1 5] true := by
  have idles : reset.Idles := ⟨rfl, rfl, rfl⟩
  have readFair : Fair 0 reset [given (readWord 1 2), answer true false 0, answer false true 7,
      answer false false 0, answer false true 8] := by decide
  have writeFair : Fair 0 reset [given (flagged 0b011 1 5), answer true false 0,
      answer false false 0, given endWord, answer false true 0] := by decide
  refine ⟨(bursts_answered idles rfl readFair).1 true 2 (decode_read 1 2) (by decide) (by decide),
    (bursts_answered idles rfl writeFair).2 [] [endWord] ?_ (.inr ⟨endWord, rfl, ?_⟩)
      (by decide)⟩
  · intro word member
    rw [List.mem_singleton.mp member]
    decide
  · decide

end Exec

end ZipVersa.DebugBus
