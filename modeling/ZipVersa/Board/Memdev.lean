import ZipVersa.Board.Arbiter

/-! The block RAM, `memdev` with `EXTRACLOCK`: a request is kept for a clock
before the memory is read or written, and its answer comes at the next. -/

set_option autoImplicit false

namespace ZipVersa.Board

/-- `i_wb_sel` takes the bytes of the new word, the old word keeps the others. -/
def writeBytes (sel : BitVec 4) (old new : BitVec 32) : BitVec 32 :=
  (if sel.getLsbD 3 then new else old).extractLsb' 24 8 ++
    (if sel.getLsbD 2 then new else old).extractLsb' 16 8 ++
    (if sel.getLsbD 1 then new else old).extractLsb' 8 8 ++
    (if sel.getLsbD 0 then new else old).extractLsb' 0 8

section Memory

variable {aw : Nat}

/-- A memory of words. -/
abbrev Words (aw : Nat) := BitVec aw → BitVec 32

/-- What a request leaves. -/
def Words.serve (words : Words aw) (request : WbRequest aw 32) : Words aw := fun addr =>
  if request.we && addr == request.addr then
    writeBytes request.sel (words addr) request.data
  else words addr

structure Memdev (aw : Nat) where
  mem : Words aw
  lastWstb : Bool
  lastStb : Bool
  last : WbRequest aw 32
  oWbAck : Bool
  oWbData : BitVec 32

namespace Memdev

/-- The memory with the write that has been kept. -/
def settled (dev : Memdev aw) : Words aw :=
  if dev.lastWstb then dev.mem.serve { dev.last with we := true } else dev.mem

/-- One rising edge, without `i_reset`. -/
def step (dev : Memdev aw) (cyc stb : Bool) (request : WbRequest aw 32) : Memdev aw where
  mem := dev.settled
  lastWstb := stb && request.we
  lastStb := stb
  last := request
  oWbAck := dev.lastStb && cyc
  oWbData := dev.mem dev.last.addr

/-- What the answers that are still to come will carry. -/
def answers (dev : Memdev aw) : List (BitVec 32) :=
  (if dev.oWbAck then [dev.oWbData] else []) ++
    if dev.lastStb then [dev.mem dev.last.addr] else []

variable {dev : Memdev aw} {cyc stb : Bool} {request : WbRequest aw 32}

theorem settled_step (dev : Memdev aw) (cyc stb : Bool) (request : WbRequest aw 32) :
    (dev.step cyc stb request).settled =
      if stb then dev.settled.serve request else dev.settled := by
  cases stb with
  | false => simp [settled, step]
  | true =>
      cases write : request.we with
      | false =>
          have same : dev.settled.serve request = dev.settled := by
            funext addr
            simp [Words.serve, write]
          rw [if_pos rfl, same]
          simp [settled, step, write]
      | true =>
          have own : { request with we := true } = request := by rw [← write]
          rw [if_pos rfl, ← own]
          simp [settled, step]

/-- In a bus cycle each request is answered with what the memory held when it
was made. -/
theorem answers_step (dev : Memdev aw) (stb : Bool) (request : WbRequest aw 32) :
    (dev.step true stb request).answers =
      dev.answers.drop (if dev.oWbAck then 1 else 0) ++
        if stb then [dev.settled request.addr] else [] := by
  cases ack : dev.oWbAck <;> cases last : dev.lastStb <;> simp [answers, step, ack, last]

/-- Outside a bus cycle there are no answers. -/
theorem answers_idle (dev : Memdev aw) (request : WbRequest aw 32) :
    (dev.step false false request).answers = [] := by
  simp [answers, step]

end Memdev

end Memory

end ZipVersa.Board
