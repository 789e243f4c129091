import ZipVersa.DebugBus.SixBit

/-! The host side of the debug bus, `TTYBUS` of `ttybus.cpp`: what it sends. A
codeword is given by its six-bit values, each of which goes through `charenc`.
`readidle`, which `writev` calls in between, is left out. It touches none of the
fields below as long as the line brings it acknowledgements and idle codes only,
which is what a bus without errors and interrupts answers to writes; an interrupt
or an error would set `interruptFlag` or `busErr`, and an address or a value that is
still on its way `lastaddr` or `rdaddr` and `readtbl`. -/

set_option autoImplicit false

namespace ZipVersa.DebugBus

open Lib

structure TtyBus where
  addrSet : Bool
  lastaddr : BitVec 32
  wrloaded : Bool
  wraddr : BitVec 8
  writetbl : BitVec 8 → BitVec 32
  rdaddr : BitVec 10
  readtbl : BitVec 10 → BitVec 32
  interruptFlag : Bool
  busErr : Bool

/-- A `TTYBUS` just constructed. -/
def TtyBus.fresh : TtyBus := ⟨false, 0, false, 0, fun _ => 0, 0, fun _ => 0, false, false⟩

/-- `(value >> shift) & 0x3f`. -/
def six (value : BitVec 32) (shift : Nat) : Six := (value >>> shift).setWidth 6

def incBit (inc : Bool) : Six := if inc then 1 else 0

namespace TtyBus

/-! ### Addresses -/

/-- `encode(0, val, buf)`. -/
def encode (hb : Six) (val : BitVec 32) : List Six :=
  [(hb <<< 2) ||| (six val 30 &&& 3), six val 24, six val 18, six val 12, six val 6, six val 0]

/-- The difference forms; `diffaddr` is an `int`. -/
def encodeDifference (diffaddr : BitVec 32) : List Six :=
  if (-32#32).sle diffaddr && diffaddr.slt 32 then [0x09, six diffaddr 0]
  else if (-2048#32).sle diffaddr && diffaddr.slt 2048 then
    [0x0b, six diffaddr 6, six diffaddr 0]
  else if (-131072#32).sle diffaddr && diffaddr.slt 131072 then
    [0x0d, six diffaddr 12, six diffaddr 6, six diffaddr 0]
  else if (-8388608#32).sle diffaddr && diffaddr.slt 8388608 then
    [0x0f, six diffaddr 18, six diffaddr 12, six diffaddr 6, six diffaddr 0]
  else []

/-- The absolute forms, preferred over `relative` when they are no longer. -/
def encodeAbsolute (addr : BitVec 32) (relative : List Six) : List Six :=
  if addr ≤ 0x03f ∧ (relative = [] ∨ 2 ≤ relative.length) then [0x08, six addr 0]
  else if addr ≤ 0x0fff ∧ (relative = [] ∨ 3 ≤ relative.length) then
    [0x0a, six addr 6, six addr 0]
  else if addr ≤ 0x03ffff ∧ (relative = [] ∨ 4 ≤ relative.length) then
    [0x0c, six addr 12, six addr 6, six addr 0]
  else if addr ≤ 0x0ffffff ∧ (relative = [] ∨ 5 ≤ relative.length) then
    [0x0e, six addr 18, six addr 12, six addr 6, six addr 0]
  else if relative = [] then encode 0 addr
  else relative

/-- `encode_address`, `none` for the `BUSERR` of an unaligned address. -/
def encodeAddress (bus : TtyBus) (a : BitVec 32) : Option (TtyBus × List Six) :=
  if a &&& 3 ≠ 0 then none
  else if bus.addrSet ∧ a = bus.lastaddr then some (bus, [])
  else
    let relative := if bus.addrSet then encodeDifference ((a - bus.lastaddr) >>> 2) else []
    some ({ bus with rdaddr := 0 }, encodeAbsolute (a >>> 2) relative)

/-! ### Writes -/

/-- The search of `writev` through the table, from distance `i` on. -/
def searchTable (bus : TtyBus) (val : BitVec 32) (i : Nat) : Nat → Option (BitVec 8)
  | 0 => none
  | remaining + 1 =>
      let tstaddr := bus.wraddr - BitVec.ofNat 8 i
      if !bus.wrloaded ∧ bus.wraddr < tstaddr then none
      else if bus.writetbl tstaddr = val then some (bus.wraddr - tstaddr)
      else bus.searchTable val (i + 1) remaining

/-- One word of `writev`. -/
def writeWord (bus : TtyBus) (p : Bool) (val : BitVec 32) : TtyBus × List Six :=
  let lastaddr := if p then bus.lastaddr + 4 else bus.lastaddr
  match bus.searchTable val 1 255 with
  | some caddr =>
      ({ bus with lastaddr },
        [((six (caddr.setWidth 32) 6 &&& 3) <<< 1) + incBit p + 0x10, six (caddr.setWidth 32) 0])
  | none =>
      ({ bus with
          lastaddr
          writetbl := Function.update bus.writetbl bus.wraddr val
          wraddr := bus.wraddr + 1
          wrloaded := bus.wrloaded || bus.wraddr + 1 == 0 },
        [((six val 30 &&& 3) <<< 1) + incBit p + 0x18,
          six val 24, six val 18, six val 12, six val 6, six val 0])

/-- The words of one chunk. -/
def writeWords (bus : TtyBus) (p : Bool) : List (BitVec 32) → TtyBus × List Six
  | [] => (bus, [])
  | val :: rest =>
      let (written, chars) := bus.writeWord p val
      let (last, more) := written.writeWords p rest
      (last, chars ++ more)

def maxwrlen : Nat := 32

/-- The loop of `writev`: one `m_dev->write` for each chunk, a newline at the
end of the last. `ptr` is what already stands in the buffer. -/
def writeChunks (bus : TtyBus) (p : Bool) (ptr : List Six) (buf : List (BitVec 32)) :
    TtyBus × List (List Byte) :=
  let (written, chars) := bus.writeWords p (buf.take maxwrlen)
  if buf.length ≤ maxwrlen then (written, [(ptr ++ chars).map charenc ++ [newline]])
  else
    let (last, more) := written.writeChunks p [] (buf.drop maxwrlen)
    (last, (ptr ++ chars).map charenc :: more)
termination_by buf.length
decreasing_by
  rw [List.length_drop]
  unfold maxwrlen at *
  omega

def writev (bus : TtyBus) (a : BitVec 32) (p : Bool) (buf : List (BitVec 32)) :
    Option (TtyBus × List Byte) :=
  (bus.encodeAddress a).map fun (addressed, ptr) =>
    let (last, writes) := ({ addressed with lastaddr := a, addrSet := true }).writeChunks p ptr buf
    (last, writes.flatten)

/-! ### Reads -/

/-- The characters of `readcmd`. -/
def readChars (inc : Bool) (len : Nat) : List Six :=
  if len ≤ 8 then [0x20 + (BitVec.ofNat 6 ((len - 1) % 8) <<< 1) + incBit inc]
  else
    [0x30 + (BitVec.ofNat 6 ((len - 9) / 32) &&& 0x0e) + incBit inc, BitVec.ofNat 6 ((len - 9) % 64)]

/-- `readcmd`, `none` when one of its assertions fails. -/
def readcmd (inc : Bool) (len : Nat) : Option (List Six) :=
  if len < 520 ∧ 0 < len then some (readChars inc len) else none

theorem readcmd_eq_some {inc : Bool} {len : Nat} {chars : List Six} :
    readcmd inc len = some chars ↔ (len < 520 ∧ 0 < len) ∧ readChars inc len = chars := by
  unfold readcmd
  split
  · next inside => simp [inside]
  · next outside => simp [outside]

def readahead : Nat := 512

def readblock : Nat := 512

/-- `nrd`, the words the next command asks for. -/
def nextBlock (len cmdrd nread : Nat) : Nat :=
  let nrd := if len - cmdrd > readblock then readblock else len - cmdrd
  if cmdrd - nread + nrd > readahead + readblock then readahead + readblock - (cmdrd - nread)
  else nrd

/-- The `do` loop of `readv`: commands until enough words are under way, with
`cmdrd` after them. -/
def readBurst (inc : Bool) (len nread cmdrd : Nat) : Option (List Six × Nat) :=
  match _ordered : readcmd inc (nextBlock len cmdrd nread) with
  | none => none
  | some chars =>
      if cmdrd + nextBlock len cmdrd nread - nread < readahead + readblock ∧
          cmdrd + nextBlock len cmdrd nread < len then
        (readBurst inc len nread (cmdrd + nextBlock len cmdrd nread)).map fun (more, last) =>
          (chars ++ more, last)
      else some (chars, cmdrd + nextBlock len cmdrd nread)
termination_by len - cmdrd
decreasing_by
  have := (readcmd_eq_some.mp _ordered).1
  omega

theorem readBurst_lt {inc : Bool} {len nread cmdrd : Nat} {burst : List Six × Nat}
    (found : readBurst inc len nread cmdrd = some burst) : cmdrd < burst.2 := by
  fun_induction readBurst inc len nread cmdrd generalizing burst with
  | case1 => cases found
  | case2 cmdrd chars ordered again ih =>
      obtain ⟨inner, taken, rfl⟩ := Option.map_eq_some_iff.mp found
      have := (readcmd_eq_some.mp ordered).1
      have := ih taken
      dsimp only
      omega
  | case3 cmdrd chars ordered done =>
      cases found
      have := (readcmd_eq_some.mp ordered).1
      dsimp only
      omega

/-- What `readv` does on the serial port. The words it is given play no part in
what it sends. -/
inductive Action where
  | send (bytes : List Byte)
  | readword
  deriving DecidableEq, Repr

/-- The outer loop of `readv`; `ptr` is what already stands in the buffer. -/
def readLoop (inc : Bool) (len : Nat) (ptr : List Six) (cmdrd nread : Nat) : Option (List Action) :=
  if cmdrd < len then
    match _found : readBurst inc len nread cmdrd with
    | none => none
    | some (chars, last) =>
        (readLoop inc len [] last (max nread (last - readahead))).map fun more =>
          .send ((ptr ++ chars).map charenc ++ [newline]) ::
            (List.replicate (last - readahead - nread) .readword ++ more)
  else some (List.replicate (len - nread) .readword)
termination_by len - cmdrd
decreasing_by
  have := readBurst_lt _found
  dsimp only at this
  omega

/-- `readv`, up to a bus error. -/
def readv (bus : TtyBus) (a : BitVec 32) (inc : Bool) (len : Nat) :
    Option (TtyBus × List Action) :=
  if len = 0 then some (bus, [])
  else (bus.encodeAddress a).bind fun (addressed, ptr) =>
    (readLoop inc len ptr 0 0).map fun actions => (addressed, actions)

/-- Everything sent by a list of actions. -/
def sent (actions : List Action) : List Byte :=
  actions.flatMap fun
    | .send bytes => bytes
    | .readword => []

@[simp] theorem sent_send (bytes : List Byte) (rest : List Action) :
    sent (.send bytes :: rest) = bytes ++ sent rest := rfl

@[simp] theorem sent_append (first second : List Action) :
    sent (first ++ second) = sent first ++ sent second := List.flatMap_append

@[simp] theorem sent_readwords (count : Nat) : sent (List.replicate count .readword) = [] := by
  simp only [sent, List.flatMap_replicate, List.flatten_eq_nil_iff]
  intro bytes member
  exact (List.mem_replicate.mp member).2

end TtyBus

end ZipVersa.DebugBus
