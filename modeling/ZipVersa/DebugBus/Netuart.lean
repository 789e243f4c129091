import ZipVersa.DebugBus.Multiplex

/-! `netuart`, which shares the serial line out to a command client and a console
client. -/

set_option autoImplicit false

namespace ZipVersa.DebugBus

open Lib

/-- What `::write` answers: bytes taken, `EAGAIN`, or that the connection is gone. -/
inductive Answer where
  | wrote (count : Nat)
  | again
  | failed

/-- The loop of `LINBUFS::write`, with what goes out; `none` when the program has
exited or waits for ever. -/
def writeLoop : List Answer → List Byte → Option (List Byte)
  | [], _ => none
  | .again :: rest, bytes => writeLoop rest bytes
  | .failed :: _, _ => none
  | .wrote 0 :: _, _ => none
  | .wrote (nw + 1) :: rest, bytes =>
      if bytes.length ≤ nw + 1 then some bytes
      else (writeLoop rest (bytes.drop (nw + 1))).map (bytes.take (nw + 1) ++ ·)

/-- However the write is cut up, all of it goes out in order. -/
theorem writeLoop_all {answers : List Answer} {bytes out : List Byte}
    (done : writeLoop answers bytes = some out) : out = bytes := by
  fun_induction writeLoop answers bytes generalizing out with
  | case1 => cases done
  | case2 _ _ ih => exact ih done
  | case3 => cases done
  | case4 => cases done
  | case5 => exact (Option.some.inj done).symm
  | case6 rest bytes nw _ ih =>
      obtain ⟨later, wrote, rfl⟩ := Option.map_eq_some_iff.mp done
      rw [ih wrote, List.take_append_drop]

/-- A `LINBUFS` and what has been written to its descriptors. -/
structure Client where
  fd : Option Nat
  received : List (Nat × Byte)

namespace Client

/-- `if ((m_fd >= 0)&&(ln>0)) write(m_fd, ln);`. All is written or the program has
exited, so that `close` is not come to. -/
def write (client : Client) (answers : List Answer) (bytes : List Byte) : Option Client :=
  match client.fd with
  | none => some client
  | some fd =>
      if bytes = [] then some client
      else (writeLoop answers bytes).map fun out =>
        { client with received := client.received ++ out.map (fd, ·) }

/-- The client's descriptor after `poll`: a connection is accepted, or found closed. -/
inductive Event where
  | none
  | accept (fd : Nat)
  | closed
  | sent (bytes : List Byte)

/-- `accept` is for a listener, the other events for a connection. What the client
sends goes to the serial line. -/
def handle (client : Client) : Event → Client
  | .none => client
  | .accept fd => if client.fd = none then { client with fd := some fd } else client
  | .closed => { client with fd := none }
  | .sent _ => client

end Client

/-- The two clients, and every byte that has come from the serial line, with the
descriptors at that time. -/
structure Netuart where
  lbcmd : Client
  lbcon : Client
  read : List (Option Nat × Option Nat × Byte)

namespace Netuart

/-- One `read` of the serial line, and the answers to the two writes after it. -/
structure Batch where
  rawbuf : List Byte
  cmdAnswers : List Answer
  conAnswers : List Answer

/-- `if (rawbuf[i] & 0x80) lbcmd.m_buf[ncmd++] = rawbuf[i] & 0x07f;`. -/
def forCmd (rawbuf : List Byte) : List Byte :=
  rawbuf.filterMap fun byte => if byte &&& 0x80 ≠ 0 then some (byte &&& 0x7f) else none

def forCon (rawbuf : List Byte) : List Byte :=
  rawbuf.filterMap fun byte => if byte &&& 0x80 ≠ 0 then none else some byte

/-- One turn of `while(nr > 0)`. -/
def forward (netuart : Netuart) (batch : Batch) : Option Netuart :=
  match netuart.lbcmd.write batch.cmdAnswers (forCmd batch.rawbuf) with
  | none => none
  | some lbcmd =>
      match netuart.lbcon.write batch.conAnswers (forCon batch.rawbuf) with
      | none => none
      | some lbcon => some ⟨lbcmd, lbcon, netuart.read ++
          batch.rawbuf.map fun byte => (netuart.lbcmd.fd, netuart.lbcon.fd, byte)⟩

/-- What a `poll` has found. -/
structure Poll where
  tty : List Batch
  cmd : Client.Event
  con : Client.Event

/-- One turn of `while(!done)`. -/
def turn (netuart : Netuart) (poll : Poll) : Option Netuart :=
  (poll.tty.foldlM forward netuart).map fun after =>
    { after with lbcmd := after.lbcmd.handle poll.cmd, lbcon := after.lbcon.handle poll.con }

def run (netuart : Netuart) (polls : List Poll) : Option Netuart := polls.foldlM turn netuart

def start : Netuart := ⟨⟨none, []⟩, ⟨none, []⟩, []⟩

/-- A byte with its top bit set is for the command client, if there is one. -/
def toCmd (entry : Option Nat × Option Nat × Byte) : Option (Nat × Byte) :=
  match entry.1, busChar entry.2.2 with
  | some fd, some char => some (fd, char.setWidth 8)
  | _, _ => none

def toCon (entry : Option Nat × Option Nat × Byte) : Option (Nat × Byte) :=
  match entry.2.1, consoleChar entry.2.2 with
  | some fd, some char => some (fd, char.setWidth 8)
  | _, _ => none

/-- Each byte read has gone to the client it is for, and to no other. -/
structure Forwarded (netuart : Netuart) : Prop where
  cmd : netuart.lbcmd.received = netuart.read.filterMap toCmd
  con : netuart.lbcon.received = netuart.read.filterMap toCon

theorem masked_char (byte : Byte) :
    (if byte &&& 0x80 ≠ 0 then some (byte &&& 0x7f) else none) =
      (busChar byte).map (BitVec.setWidth 8) := by
  revert byte
  decide +kernel

theorem plain_char (byte : Byte) :
    (if byte &&& 0x80 ≠ 0 then none else some byte) = (consoleChar byte).map (BitVec.setWidth 8) := by
  revert byte
  decide +kernel

theorem forCmd_eq (rawbuf : List Byte) :
    forCmd rawbuf = (rawbuf.filterMap busChar).map (BitVec.setWidth 8) := by
  rw [forCmd, List.map_filterMap]
  simp only [masked_char]

theorem forCon_eq (rawbuf : List Byte) :
    forCon rawbuf = (rawbuf.filterMap consoleChar).map (BitVec.setWidth 8) := by
  rw [forCon, List.map_filterMap]
  simp only [plain_char]

/-- All of the bytes are written to a client that is there. -/
theorem write_eq {client after : Client} {answers : List Answer} {bytes : List Byte}
    (done : client.write answers bytes = some after) :
    after.fd = client.fd ∧ after.received = client.received ++
      bytes.filterMap fun byte => client.fd.map (·, byte) := by
  rw [Client.write] at done
  cases there : client.fd with
  | none =>
      rw [there] at done
      obtain rfl := Option.some.inj done
      refine ⟨there, ?_⟩
      simp
  | some fd =>
      rw [there] at done
      dsimp only at done
      split at done
      · next empty =>
          obtain rfl := Option.some.inj done
          rw [empty, List.filterMap_nil, List.append_nil]
          exact ⟨there, rfl⟩
      · obtain ⟨out, wrote, rfl⟩ := Option.map_eq_some_iff.mp done
        refine ⟨rfl, ?_⟩
        rw [writeLoop_all wrote]
        simp

/-- The characters of a batch, for a client that may be there. -/
theorem sorted_eq (pick : Byte → Option (BitVec 7)) (fd : Option Nat) (rawbuf : List Byte) :
    ((rawbuf.filterMap pick).map (BitVec.setWidth 8)).filterMap (fun byte => fd.map (·, byte)) =
      rawbuf.filterMap fun byte =>
        fd.bind fun fd => (pick byte).map fun char => (fd, char.setWidth 8) := by
  rw [List.filterMap_map, List.filterMap_filterMap]
  congr 1
  funext byte
  cases fd with
  | none => cases pick byte <;> rfl
  | some fd => cases pick byte <;> rfl

theorem toCmd_eq (cmd con : Option Nat) (byte : Byte) : toCmd (cmd, con, byte) =
    cmd.bind fun fd => (busChar byte).map fun char => (fd, char.setWidth 8) := by
  rw [toCmd]
  cases cmd with
  | none => rfl
  | some fd => cases busChar byte <;> rfl

theorem toCon_eq (cmd con : Option Nat) (byte : Byte) : toCon (cmd, con, byte) =
    con.bind fun fd => (consoleChar byte).map fun char => (fd, char.setWidth 8) := by
  rw [toCon]
  cases con with
  | none => rfl
  | some fd => cases consoleChar byte <;> rfl

theorem Forwarded.forward {netuart after : Netuart} (forwarded : netuart.Forwarded)
    {batch : Batch} (done : netuart.forward batch = some after) : after.Forwarded := by
  rw [Netuart.forward] at done
  cases cmd : netuart.lbcmd.write batch.cmdAnswers (forCmd batch.rawbuf) with
  | none => rw [cmd] at done; cases done
  | some lbcmd =>
      rw [cmd] at done
      cases con : netuart.lbcon.write batch.conAnswers (forCon batch.rawbuf) with
      | none => rw [con] at done; cases done
      | some lbcon =>
          rw [con] at done
          obtain rfl := Option.some.inj done
          obtain ⟨_, wroteCmd⟩ := write_eq cmd
          obtain ⟨_, wroteCon⟩ := write_eq con
          constructor
          · rw [wroteCmd, forwarded.cmd, List.filterMap_append, forCmd_eq, sorted_eq,
              List.filterMap_map]
            simp only [Function.comp_def, toCmd_eq]
          · rw [wroteCon, forwarded.con, List.filterMap_append, forCon_eq, sorted_eq,
              List.filterMap_map]
            simp only [Function.comp_def, toCon_eq]

theorem Forwarded.handled {netuart : Netuart} (forwarded : netuart.Forwarded)
    (cmd con : Client.Event) : Forwarded { netuart with
      lbcmd := netuart.lbcmd.handle cmd, lbcon := netuart.lbcon.handle con } := by
  have same : ∀ (client : Client) (event : Client.Event),
      (client.handle event).received = client.received := by
    intro client event
    cases event with
    | none => rfl
    | accept fd => rw [Client.handle]; split <;> rfl
    | closed => rfl
    | sent bytes => rfl
  exact ⟨(same _ cmd).trans forwarded.cmd, (same _ con).trans forwarded.con⟩

theorem Forwarded.turn {netuart after : Netuart} (forwarded : netuart.Forwarded) {poll : Poll}
    (done : netuart.turn poll = some after) : after.Forwarded := by
  obtain ⟨between, read, rfl⟩ := Option.map_eq_some_iff.mp done
  exact (foldlM_keeps (fun _ _ _ held => held.forward) forwarded read).handled poll.cmd poll.con

theorem Forwarded.run {netuart last : Netuart} (forwarded : netuart.Forwarded)
    {polls : List Poll} (done : netuart.run polls = some last) : last.Forwarded :=
  foldlM_keeps (fun _ _ _ held => held.turn) forwarded done

end Netuart

end ZipVersa.DebugBus
