import ZipVersa.DebugBus.TtyBus
import ZipVersa.DebugBus.Printer

/-! The receiving half of `TTYBUS`: `lclreadcode` and `readword`. -/

set_option autoImplicit false

namespace ZipVersa.DebugBus

open Lib

/-- The characters still to come, in the batches the device will give them. -/
abbrev Port := List (List Byte)

/-- `m_dev->read(buf, len)`. -/
def Port.read (len : Nat) : Port → List Byte × Port
  | [] => ([], [])
  | batch :: rest =>
      (batch.take len, if batch.length ≤ len then rest else batch.drop len :: rest)

def Port.size (port : Port) : Nat := port.length + port.flatten.length

/-- A `TTYBUS`, its `m_buf` and its device. -/
structure Host where
  bus : TtyBus
  buf : Nat → Byte
  port : Port

namespace Host

/-- The characters as `m_dev->read` puts them into the buffer. -/
def store (buf : Nat → Byte) (start : Nat) : List Byte → Nat → Byte
  | [] => buf
  | char :: chars => store (Function.update buf start char) (start + 1) chars

/-- The loop of `lclreadcode` with its two pointers; it copies from `dp` to
`sp`, not the other way round. -/
def compact (buf : Nat → Byte) (sp dp : Nat) : Nat → (Nat → Byte) × Nat
  | 0 => (buf, 0)
  | count + 1 =>
      if chardec (buf sp) = none then compact buf (sp + 1) dp count
      else
        let (last, ret) := compact (Function.update buf sp (buf dp)) (sp + 1) (dp + 1) count
        (last, ret + 1)

/-- `lclreadcode(&m_buf[start], len)`. -/
def lclreadcode (host : Host) (start len : Nat) : Host × Nat :=
  let (chars, port) := Port.read len host.port
  let (buf, ret) := compact (store host.buf start chars) start start chars.length
  ({ host with buf, port }, ret)

theorem size_read {port : Port} {len : Nat} (some : port ≠ []) (positive : 0 < len) :
    (Port.read len port).2.size < port.size := by
  cases port with
  | nil => exact absurd rfl some
  | cons batch rest =>
      simp only [Port.read, Port.size]
      split
      · simp
        omega
      · simp
        omega

/-- `do { nr += lclreadcode(&m_buf[nr], want - nr); } while (nr < want);`, `none`
when it waits for ever. -/
def await (host : Host) (nr want : Nat) : Option Host :=
  if host.port = [] then none
  else if nr + (host.lclreadcode nr (want - nr)).2 < want then
    await (host.lclreadcode nr (want - nr)).1 (nr + (host.lclreadcode nr (want - nr)).2) want
  else some (host.lclreadcode nr (want - nr)).1
termination_by host.port.size
decreasing_by
  exact size_read ‹_› (by omega)

theorem size_await {host next : Host} {nr want : Nat} (short : nr < want)
    (came : host.await nr want = some next) : next.port.size < host.port.size := by
  fun_induction await host nr want with
  | case1 => cases came
  | case2 host nr some again ih => 
      have := size_read some (show 0 < want - nr by omega)
      exact Nat.lt_trans (ih again came) this
  | case3 host nr some enough =>
      cases came
      exact size_read some (by omega)

/-- `chardec(m_buf[i])`. -/
def code (host : Host) (i : Nat) : BitVec 32 :=
  match chardec (host.buf i) with
  | some sixbits => sixbits.setWidth 32
  | none => 0x0100

/-- `val = (val << 6) | (chardec(m_buf[i]) & 0x03f);` for each `i`. -/
def gather (host : Host) (val : BitVec 32) (places : List Nat) : BitVec 32 :=
  places.foldl (fun val i => (val <<< 6) ||| (host.code i &&& 0x03f)) val

/-- How a call of `readword` ends. -/
inductive Outcome where
  | word (val : BitVec 32) (host : Host)
  | busErr (host : Host)
  | waiting

/-- `m_lastaddr += (sixbits & 1) ? 4 : 0;`. -/
def advance (host : Host) (sixbits : Six) : Host :=
  { host with bus := { host.bus with
      lastaddr := host.bus.lastaddr + if sixbits.getLsbD 0 then 4 else 0 } }

/-- A word `idx` back in the table. -/
def tableRead (host : Host) (sixbits : Six) (idx : BitVec 32) : Outcome :=
  .word (host.bus.readtbl (host.bus.rdaddr - idx.setWidth 10)) (host.advance sixbits)

def rawRead (host : Host) (sixbits : Six) : Outcome :=
  let val := host.gather ((host.code 0 >>> 1) &&& 0x03) [1, 2, 3, 4, 5]
  .word val ({ host with bus := { host.bus with
    readtbl := Function.update host.bus.readtbl host.bus.rdaddr val
    rdaddr := host.bus.rdaddr + 1 } }.advance sixbits)

/-- `readword` from the character on that is not out of band. -/
def decodeWord (host : Host) (val : BitVec 32) (sixbits : Six) : Outcome :=
  if sixbits &&& 0x3e = 0x06 then host.tableRead sixbits 1
  else if sixbits &&& 0x30 = 0x10 then
    match host.await 1 2 with
    | none => .waiting
    | some host =>
        host.tableRead sixbits
          (((((host.code 0 >>> 1) &&& 0x07) <<< 6) ||| (host.code 1 &&& 0x03f)) + 2 + 8)
  else if sixbits &&& 0x30 = 0x20 then
    host.tableRead sixbits ((((sixbits >>> 1) &&& 0x07).setWidth 32) + 2)
  else if sixbits &&& 0x38 = 0x38 then
    match host.await 1 6 with
    | none => .waiting
    | some host => host.rawRead sixbits
  else .word val host

/-- `m_addr_set = true; m_lastaddr = val << 2;`. -/
def setAddress (host : Host) (val : BitVec 32) : Host :=
  { host with bus := { host.bus with addrSet := true, lastaddr := val <<< 2 } }

/-- The loop of `readword`. -/
def readLoop (host : Host) (val : BitVec 32) : Outcome :=
  match _came : host.await 0 1 with
  | none => .waiting
  | some next =>
      match chardec (next.buf 0) with
      | none => next.readLoop val
      | some sixbits =>
          if sixbits < 6 then
            if sixbits = 3 ∨ sixbits = 5 then
              .busErr { next with bus := { next.bus with busErr := true } }
            else if sixbits = 4 then
              { next with bus := { next.bus with interruptFlag := true } }.readLoop val
            else next.readLoop val
          else if sixbits &&& 0x3c = 0x08 then
            match more : next.await 1 6 with
            | none => .waiting
            | some last =>
                let val := last.gather (last.code 0 &&& 0x03) [1, 2, 3, 4, 5]
                (last.setAddress val).readLoop val
          else if sixbits &&& 0x3c = 0x0c then
            match more : next.await 1 ((sixbits &&& 0x03).toNat + 2) with
            | none => .waiting
            | some last =>
                let val := last.gather (last.code 1) (List.range' 2 (sixbits &&& 0x03).toNat)
                (last.setAddress val).readLoop val
          else next.decodeWord val sixbits
termination_by host.port.size
decreasing_by
  all_goals have first := size_await Nat.zero_lt_one _came
  · exact first
  · exact first
  · exact first
  · have second := size_await (by decide) more
    exact Nat.lt_trans second first
  · have second := size_await (by omega) more
    exact Nat.lt_trans second first

/-- `TTYBUS::readword`. -/
def readword (host : Host) : Outcome := host.readLoop 0

/-! ### Whatever the batches -/

theorem read_flatten (len : Nat) (port : Port) :
    (Port.read len port).1 ++ (Port.read len port).2.flatten = port.flatten := by
  cases port with
  | nil => rfl
  | cons batch rest =>
      simp only [Port.read, List.flatten_cons]
      split
      · next short => rw [List.take_of_length_le short]
      · rw [List.flatten_cons, ← List.append_assoc, List.take_append_drop]

theorem read_length (len : Nat) (port : Port) : (Port.read len port).1.length ≤ len := by
  cases port with
  | nil => exact Nat.zero_le _
  | cons batch rest => exact List.length_take_le _ _

theorem store_below (chars : List Byte) (buf : Nat → Byte) {start i : Nat} (below : i < start) :
    store buf start chars i = buf i := by
  induction chars generalizing buf start with
  | nil => rfl
  | cons char chars ih =>
      rw [store, ih _ (by omega), Function.update_of_ne (by omega)]

theorem store_get {chars : List Byte} (buf : Nat → Byte) (start : Nat) {i : Nat} {char : Byte}
    (found : chars[i]? = some char) : store buf start chars (start + i) = char := by
  induction chars generalizing buf start i with
  | nil => cases found
  | cons first chars ih =>
      cases i with
      | zero =>
          rw [store, store_below _ _ (by omega), Nat.add_zero, Function.update_self]
          exact Option.some.inj found
      | succ i =>
          rw [store, ← ih (Function.update buf start first) (start + 1) found]
          congr 1
          omega

/-- Codes in a row are left as they are. -/
theorem compact_codes {buf : Nat → Byte} {start count : Nat}
    (valid : ∀ i < count, chardec (buf (start + i)) ≠ none) :
    compact buf start start count = (buf, count) := by
  induction count generalizing start with
  | zero => rfl
  | succ count ih =>
      have first := valid 0 (Nat.succ_pos _)
      rw [compact, if_neg (by simpa using first), Function.update_eq_self, ih]
      intro i inside
      have := valid (i + 1) (by omega)
      rwa [Nat.add_comm i, ← Nat.add_assoc] at this

/-- One call of `lclreadcode` in the middle of a codeword. -/
theorem lclreadcode_codes {host : Host} {codes : List Six} {more : List Byte} {len : Nat}
    (start : Nat) (chars : host.port.flatten = codes.map charenc ++ more) (length : codes.length = len) :
    ∃ next, host.lclreadcode start len = (next, (Port.read len host.port).1.length) ∧
      next.bus = host.bus ∧ next.port = (Port.read len host.port).2 ∧
      next.buf = store host.buf start ((codes.take (Port.read len host.port).1.length).map charenc) ∧
      next.port.flatten = (codes.drop (Port.read len host.port).1.length).map charenc ++ more := by
  have few := read_length len host.port
  have whole := read_flatten len host.port
  generalize reads : Port.read len host.port = read at few whole
  obtain ⟨now, later⟩ := read
  dsimp only at few whole ⊢
  have taken : now = (codes.take now.length).map charenc := by
    have := congrArg (List.take now.length) (whole.trans chars)
    rwa [List.take_left, List.take_append_of_le_length (by rw [List.length_map]; omega),
      ← List.map_take] at this
  have left : later.flatten = (codes.drop now.length).map charenc ++ more := by
    have := congrArg (List.drop now.length) (whole.trans chars)
    rwa [List.drop_left, List.drop_append_of_le_length (by rw [List.length_map]; omega),
      ← List.map_drop] at this
  have valid : ∀ i < now.length, chardec (store host.buf start now (start + i)) ≠ none := by
    intro i inside
    obtain ⟨value, _, same⟩ : ∃ value ∈ codes.take now.length, charenc value = now[i] := by
      rw [← List.mem_map, ← taken]
      exact List.getElem_mem inside
    rw [store_get host.buf start (List.getElem?_eq_getElem inside), ← same, chardec_charenc]
    nofun
  refine ⟨{ host with buf := store host.buf start now, port := later }, ?_, rfl, rfl, ?_, left⟩
  · simp only [lclreadcode, reads, compact_codes valid]
  · rw [← taken]

/-- `codes` stand in the buffer from `start` on, and nothing below has changed. -/
structure Filled (host next : Host) (start : Nat) (codes : List Six) : Prop where
  bus : next.bus = host.bus
  below : ∀ i < start, next.buf i = host.buf i
  buf : ∀ (i : Nat) (value : Six), codes[i]? = some value → next.buf (start + i) = charenc value

theorem await_codes {host : Host} {codes : List Six} {more : List Byte} {nr want : Nat}
    (chars : host.port.flatten = codes.map charenc ++ more) (length : nr + codes.length = want)
    (short : nr < want) :
    ∃ next, host.await nr want = some next ∧ host.Filled next nr codes ∧
      next.port.flatten = more := by
  fun_induction await host nr want generalizing codes with
  | case1 host nr none =>
      rw [none] at chars
      obtain ⟨nothing, _⟩ := List.append_eq_nil_iff.mp chars.symm
      rw [List.map_eq_nil_iff.mp nothing, List.length_nil] at length
      omega
  | case2 host nr some again ih =>
      obtain ⟨next, read, bus, _, buf, port⟩ :=
        lclreadcode_codes nr chars (show codes.length = want - nr by omega)
      have few := read_length (want - nr) host.port
      generalize (Port.read (want - nr) host.port).1.length = count at *
      rw [read] at again ih ⊢
      dsimp only at again ih ⊢
      obtain ⟨last, came, filled, left⟩ := ih port (by rw [List.length_drop]; omega) again
      refine ⟨last, came, ⟨filled.bus.trans bus, ?_, ?_⟩, left⟩
      · intro i below
        rw [filled.below i (by omega), buf, store_below _ _ below]
      · intro i value found
        by_cases early : i < count
        · rw [filled.below _ (by omega), buf]
          refine store_get _ _ ?_
          rw [List.getElem?_map, List.getElem?_take_of_lt early, found]
          rfl
        · have := filled.buf (i - count) value (by rw [List.getElem?_drop, ← found]; congr 1; omega)
          rw [← this]
          congr 1
          omega
  | case3 host nr some enough =>
      obtain ⟨next, read, bus, _, buf, port⟩ :=
        lclreadcode_codes nr chars (show codes.length = want - nr by omega)
      have few := read_length (want - nr) host.port
      generalize (Port.read (want - nr) host.port).1.length = count at *
      rw [read] at enough ⊢
      dsimp only at enough ⊢
      have all : count = codes.length := by omega
      rw [all, List.take_length] at buf
      rw [all, List.drop_length] at port
      refine ⟨next, rfl, ⟨bus, ?_, ?_⟩, port⟩
      · intro i below
        rw [buf, store_below _ _ below]
      · intro i value found
        rw [buf]
        refine store_get _ _ ?_
        rw [List.getElem?_map, found]
        rfl

/-- An empty batch gives nothing. -/
theorem await_empty {host : Host} {rest : Port} (empty : host.port = [] :: rest) :
    host.await 0 1 = { host with port := rest }.await 0 1 := by
  have read : host.lclreadcode 0 1 = ({ host with port := rest }, 0) := by
    simp [lclreadcode, empty, Port.read, store, compact]
  rw [await, if_neg (by simp [empty]), read]
  rfl

/-- A character that is no code is dropped. -/
theorem await_dropped {host : Host} {char : Byte} {batch : List Byte} {rest : Port}
    (port : host.port = (char :: batch) :: rest) (invalid : chardec char = none) :
    ∃ next : Host, host.await 0 1 = next.await 0 1 ∧ next.bus = host.bus ∧
      next.port.flatten = batch ++ rest.flatten := by
  have flat := read_flatten 1 host.port
  rw [port] at flat
  let next : Host := { host with
    buf := Function.update host.buf 0 char
    port := (Port.read 1 ((char :: batch) :: rest)).2 }
  have read : host.lclreadcode 0 1 = (next, 0) := by
    simp [lclreadcode, port, Port.read, store, compact, invalid, next]
  refine ⟨next, ?_, rfl, ?_⟩
  · rw [await, if_neg (by simp [port]), read]
    rfl
  · simpa [Port.read, next] using flat

theorem await_newline {host : Host} {more : List Byte}
    (chars : host.port.flatten = newline :: more) :
    ∃ next : Host, host.await 0 1 = next.await 0 1 ∧ next.bus = host.bus ∧
      next.port.flatten = more := by
  generalize same : host.port = port at chars
  induction port generalizing host with
  | nil => cases chars
  | cons batch rest ih =>
      cases batch with
      | nil =>
          rw [List.flatten_cons, List.nil_append] at chars
          obtain ⟨next, skipped, bus, port⟩ := @ih { host with port := rest } rfl chars
          exact ⟨next, by rw [await_empty same, skipped], bus, port⟩
      | cons char batch =>
          rw [List.flatten_cons, List.cons_append, List.cons.injEq] at chars
          obtain ⟨rfl, rfl⟩ := chars
          exact await_dropped same chardec_newline

theorem await_nothing {host : Host} (chars : host.port.flatten = []) : host.await 0 1 = none := by
  generalize same : host.port = port at chars
  induction port generalizing host with
  | nil => rw [await, if_pos same]
  | cons batch rest ih =>
      rw [List.flatten_cons, List.append_eq_nil_iff] at chars
      obtain ⟨rfl, chars⟩ := chars
      rw [await_empty same]
      exact ih rfl chars

/-! ### One turn of `readword` -/

/-- What `readword` does with the first character of a codeword. -/
def dispatch (next : Host) (val : BitVec 32) (sixbits : Six) : Outcome :=
  if sixbits < 6 then
    if sixbits = 3 ∨ sixbits = 5 then .busErr { next with bus := { next.bus with busErr := true } }
    else if sixbits = 4 then
      { next with bus := { next.bus with interruptFlag := true } }.readLoop val
    else next.readLoop val
  else if sixbits &&& 0x3c = 0x08 then
    match next.await 1 6 with
    | none => .waiting
    | some last =>
        (last.setAddress (last.gather (last.code 0 &&& 0x03) [1, 2, 3, 4, 5])).readLoop
          (last.gather (last.code 0 &&& 0x03) [1, 2, 3, 4, 5])
  else if sixbits &&& 0x3c = 0x0c then
    match next.await 1 ((sixbits &&& 0x03).toNat + 2) with
    | none => .waiting
    | some last =>
        (last.setAddress (last.gather (last.code 1)
          (List.range' 2 (sixbits &&& 0x03).toNat))).readLoop
          (last.gather (last.code 1) (List.range' 2 (sixbits &&& 0x03).toNat))
  else next.decodeWord val sixbits

theorem readLoop_none {host : Host} (nothing : host.await 0 1 = none) (val : BitVec 32) :
    host.readLoop val = .waiting := by
  rw [readLoop]
  split
  · rfl
  · next came => rw [nothing] at came; cases came

theorem readLoop_some {host next : Host} (came : host.await 0 1 = some next) (val : BitVec 32) :
    host.readLoop val =
      match chardec (next.buf 0) with
      | none => next.readLoop val
      | some sixbits => next.dispatch val sixbits := by
  rw [readLoop]
  split
  · next nothing => rw [came] at nothing; cases nothing
  · next other found =>
      rw [came] at found
      cases found
      split
      · rfl
      · simp only [dispatch]
        split
        · rfl
        · split
          · split <;> rename_i same <;> rw [same]
          · split
            · split <;> rename_i same <;> rw [same]
            · rfl

theorem readLoop_skips {host next : Host} (same : host.await 0 1 = next.await 0 1)
    (val : BitVec 32) : host.readLoop val = next.readLoop val := by
  cases came : next.await 0 1 with
  | none => rw [readLoop_none (same.trans came), readLoop_none came]
  | some last => rw [readLoop_some (same.trans came), readLoop_some came]

/-- A codeword that starts with `first` is at hand. -/
theorem readLoop_first {host : Host} {first : Six} {more : List Byte}
    (chars : host.port.flatten = charenc first :: more) (val : BitVec 32) :
    ∃ next : Host, host.readLoop val = next.dispatch val first ∧ next.bus = host.bus ∧
      next.buf 0 = charenc first ∧ next.port.flatten = more := by
  obtain ⟨next, came, filled, left⟩ : ∃ next, host.await 0 1 = some next ∧
      host.Filled next 0 [first] ∧ next.port.flatten = more :=
    await_codes chars rfl (by decide)
  have buf : next.buf 0 = charenc first := filled.buf 0 first rfl
  refine ⟨next, ?_, filled.bus, buf, left⟩
  rw [readLoop_some came, buf, chardec_charenc]

/-! ### Values from characters -/

theorem code_charenc {host : Host} {i : Nat} {value : Six} (buf : host.buf i = charenc value) :
    host.code i = value.setWidth 32 := by
  rw [code, buf, chardec_charenc]

theorem six_mask (i : Nat) : (0x03f : BitVec 32).getLsbD i = decide (i < 6) := by
  by_cases small : i < 32
  · revert i
    decide
  · rw [BitVec.getLsbD_of_ge _ _ (by omega), decide_eq_false (by omega)]

theorem shift_in (x : BitVec 32) (k : Nat) :
    ((x >>> (k + 6)) <<< 6) ||| ((x.extractLsb' k 6).setWidth 32 &&& 0x03f) = x >>> k := by
  apply BitVec.eq_of_getLsbD_eq
  intro i inside
  rw [BitVec.getLsbD_or, BitVec.getLsbD_and, six_mask, BitVec.getLsbD_shiftLeft,
    BitVec.getLsbD_ushiftRight, BitVec.getLsbD_ushiftRight, BitVec.getLsbD_setWidth,
    BitVec.getLsbD_extractLsb']
  by_cases small : i < 6
  · simp [small, inside]
  · have place : k + 6 + (i - 6) = k + i := by omega
    simp [small, inside, place]

/-- The last `count` pieces of a value after its beginning. -/
theorem gather_eq {host : Host} (x : BitVec 32) {count start : Nat}
    (pieces : ∀ i < count, host.code (start + i) = (x.extractLsb' (6 * (count - 1 - i)) 6).setWidth 32) :
    host.gather (x >>> (6 * count)) (List.range' start count) = x := by
  induction count generalizing start with
  | zero => exact BitVec.ushiftRight_zero x
  | succ count ih =>
      have first := pieces 0 (Nat.succ_pos _)
      rw [Nat.add_zero, Nat.add_sub_cancel, Nat.sub_zero] at first
      rw [List.range'_succ, gather, List.foldl_cons, first, Nat.mul_succ, shift_in]
      refine ih fun i inside => ?_
      have := pieces (i + 1) (by omega)
      rw [Nat.add_comm i, ← Nat.add_assoc] at this
      rw [this]
      congr 3
      omega

end Host

end ZipVersa.DebugBus
