import Mathlib.Data.List.Chain
import ZipVersa.DebugBus.Executor
import ZipVersa.DebugBus.HostForms

/-! Writes from the host to the bus. The host's table of words written is the
device's, shifted by where the device's pointer stood at the start; the entry
the pointers stand at is never referred to. -/

set_option autoImplicit false

namespace ZipVersa.DebugBus

open Lib

namespace TtyBus

/-! ### The table of words written -/

/-- An entry the host has filled, other than the one it fills next. -/
def Filled (bus : TtyBus) (index : BitVec 8) : Prop :=
  index ≠ bus.wraddr ∧ (bus.wrloaded = true ∨ index < bus.wraddr)

/-- The two tables, `base` apart. -/
structure Mirrors (bus : TtyBus) (decoder : Decoder) (base : BitVec 8) : Prop where
  wrAddr : decoder.wrAddr = base + bus.wraddr
  table : ∀ index, bus.Filled index → decoder.compressionTbl (base + index) = bus.writetbl index

/-- Codewords other than raw writes touch no entry in use. -/
theorem Mirrors.kept {bus : TtyBus} {before after : Decoder} {base : BitVec 8}
    (mirrors : bus.Mirrors before base) (kept : before.Kept after) : bus.Mirrors after base := by
  refine ⟨kept.wrAddr.trans mirrors.wrAddr, fun index filled => ?_⟩
  have other : base + index ≠ before.wrAddr := by
    intro same
    rw [mirrors.wrAddr] at same
    exact filled.1 ((BitVec.add_right_inj base).mp same)
  rw [kept.table _ other, mirrors.table index filled]

/-- The search only returns distances to entries that hold the value. -/
theorem searchTable_some {bus : TtyBus} {val : BitVec 32} {i remaining : Nat} {caddr : BitVec 8}
    (positive : 0 < i) (inside : i + remaining ≤ 256)
    (found : bus.searchTable val i remaining = some caddr) :
    ∃ index, bus.Filled index ∧ bus.writetbl index = val ∧ caddr = bus.wraddr - index := by
  induction remaining generalizing i with
  | zero => cases found
  | succ remaining ih =>
      rw [searchTable] at found
      split at found
      · cases found
      · next inRange =>
          split at found
          · next holds =>
              cases found
              refine ⟨bus.wraddr - BitVec.ofNat 8 i, ⟨?_, ?_⟩, holds, rfl⟩
              · intro same
                have := congrArg BitVec.toNat same
                rw [BitVec.toNat_sub, BitVec.toNat_ofNat] at this
                have := bus.wraddr.isLt
                omega
              · cases loaded : bus.wrloaded with
                | true => exact .inl rfl
                | false =>
                    refine .inr ?_
                    have notAbove : ¬ bus.wraddr < bus.wraddr - BitVec.ofNat 8 i := fun above =>
                      inRange ⟨by rw [loaded]; rfl, above⟩
                    rw [BitVec.lt_def, BitVec.toNat_sub, BitVec.toNat_ofNat] at notAbove ⊢
                    have := bus.wraddr.isLt
                    omega
          · exact ih (by omega) (by omega) found

/-- Storing a word keeps the tables in step. -/
theorem Mirrors.store {bus : TtyBus} {decoder after : Decoder} {base : BitVec 8}
    (mirrors : bus.Mirrors decoder base) {val : BitVec 32} {lastaddr : BitVec 32}
    (wrAddr : after.wrAddr = decoder.wrAddr + 1)
    (table : after.compressionTbl =
      Function.update decoder.compressionTbl decoder.wrAddr val) :
    ({ bus with
        lastaddr
        writetbl := Function.update bus.writetbl bus.wraddr val
        wraddr := bus.wraddr + 1
        wrloaded := bus.wrloaded || bus.wraddr + 1 == 0 } : TtyBus).Mirrors after base := by
  refine ⟨?_, ?_⟩
  · rw [wrAddr, mirrors.wrAddr, BitVec.add_assoc]
  · rintro index ⟨other, filled⟩
    dsimp only at other filled ⊢
    rw [table, mirrors.wrAddr]
    by_cases new : index = bus.wraddr
    · rw [new, Function.update_self, Function.update_self]
    · have apart : base + index ≠ base + bus.wraddr := fun same =>
        new ((BitVec.add_right_inj base).mp same)
      rw [Function.update_of_ne apart, Function.update_of_ne new]
      refine mirrors.table index ⟨new, ?_⟩
      have apartNat : index.toNat ≠ bus.wraddr.toNat := fun same => new (BitVec.eq_of_toNat_eq same)
      have := index.isLt
      have := bus.wraddr.isLt
      have next : (bus.wraddr + 1).toNat = (bus.wraddr.toNat + 1) % 256 := BitVec.toNat_add _ _
      rw [BitVec.lt_def, Bool.or_eq_true, beq_iff_eq] at filled
      rw [BitVec.lt_def]
      rcases filled with (loaded | wrapped) | below
      · exact .inl loaded
      · have := congrArg BitVec.toNat wrapped
        rw [next] at this
        change _ = 0 at this
        omega
      · omega

/-! ### What the device hears of a call -/

/-- Everything of the host's state that a stretch of writes depends on and
keeps, with the decoder it is in step with. -/
structure InStep (bus : TtyBus) (decoder : Decoder) (base : BitVec 8) : Prop where
  mirrors : bus.Mirrors decoder base
  ready : decoder.Ready

/-- The address after `count` words. -/
def strides (p : Bool) (lastaddr : BitVec 32) (count : Nat) : BitVec 32 :=
  if p then lastaddr + BitVec.ofNat 32 (4 * count) else lastaddr

theorem strides_add (p : Bool) (lastaddr : BitVec 32) (first second : Nat) :
    strides p (strides p lastaddr first) second = strides p lastaddr (first + second) := by
  cases p with
  | false => rfl
  | true =>
      apply BitVec.eq_of_toNat_eq
      simp only [strides, if_true, BitVec.toNat_add, BitVec.toNat_ofNat]
      omega

theorem writeWord_hears {bus : TtyBus} {decoder : Decoder} {base : BitVec 8}
    (inStep : bus.InStep decoder base) (p : Bool) (val : BitVec 32) :
    ∃ after, decoder.Hears ((bus.writeWord p val).2.map charenc) [.write p val] after ∧
      after.lastcw = 1#2 ∧ (bus.writeWord p val).1.InStep after base ∧
      (bus.writeWord p val).1.addrSet = bus.addrSet ∧
      (bus.writeWord p val).1.lastaddr = strides p bus.lastaddr 1 := by
  unfold writeWord
  cases search : bus.searchTable val 1 255 with
  | some caddr =>
      obtain ⟨index, filled, holds, rfl⟩ := searchTable_some (by decide) (by decide) search
      have distant : bus.wraddr - index ≠ 0 := by
        intro zero
        apply filled.1
        grind
      obtain ⟨after, spells, kept⟩ := reference_spells inStep.ready p distant
      have entry : decoder.wrAddr - (bus.wraddr - index) = base + index := by
        rw [inStep.mirrors.wrAddr]
        grind
      rw [entry, inStep.mirrors.table index filled, holds] at spells
      refine ⟨after, spells.hears, spells.lastcw, ⟨?_, kept.ready⟩, rfl, rfl⟩
      obtain ⟨wrAddr, table⟩ := inStep.mirrors.kept kept
      exact ⟨wrAddr, table⟩
  | none =>
      obtain ⟨after, spells, ready, wrAddr, table⟩ := raw_spells inStep.ready p val
      exact ⟨after, spells.hears, spells.lastcw, ⟨inStep.mirrors.store wrAddr table, ready⟩,
        rfl, rfl⟩

theorem writeWords_hears {bus : TtyBus} {decoder : Decoder} {base : BitVec 8}
    (inStep : bus.InStep decoder base) (p : Bool) {buf : List (BitVec 32)} (some : buf ≠ []) :
    ∃ after, decoder.Hears ((bus.writeWords p buf).2.map charenc) (buf.map (.write p)) after ∧
      after.lastcw = 1#2 ∧ (bus.writeWords p buf).1.InStep after base ∧
      (bus.writeWords p buf).1.addrSet = bus.addrSet ∧
      (bus.writeWords p buf).1.lastaddr = strides p bus.lastaddr buf.length := by
  induction buf generalizing bus decoder with
  | nil => exact absurd rfl some
  | cons val rest ih =>
      obtain ⟨between, first, last, kept, set, moved⟩ := writeWord_hears inStep p val
      cases rest with
      | nil =>
          refine ⟨between, ?_, last, kept, set, ?_⟩
          · simpa [writeWords] using first
          · exact moved
      | cons next more =>
          obtain ⟨after, second, wrote, done, setToo, movedToo⟩ := ih kept (List.cons_ne_nil _ _)
          refine ⟨after, ?_, wrote, done, setToo.trans set, ?_⟩
          · rw [writeWords, List.map_append, List.map_cons]
            exact first.append second
          · rw [List.length_cons, Nat.add_comm, ← strides_add, ← moved]
            exact movedToo

theorem writeChunks_short {buf : List (BitVec 32)} (short : buf.length ≤ maxwrlen) (bus : TtyBus)
    (p : Bool) (ptr : List Six) : bus.writeChunks p ptr buf =
      ((bus.writeWords p buf).1, [(ptr ++ (bus.writeWords p buf).2).map charenc ++ [newline]]) := by
  rw [writeChunks, List.take_of_length_le short]
  exact if_pos short

/-- The chunks of a call: its writes, then the end of writes. -/
theorem writeChunks_hears {bus : TtyBus} {decoder between : Decoder} {base : BitVec 8}
    {ptr : List Six} {before : List Command}
    (start : decoder.Hears (ptr.map charenc) before between) (inStep : bus.InStep between base)
    (p : Bool) {buf : List (BitVec 32)} (some : buf ≠ []) :
    ∃ after, decoder.Hears (bus.writeChunks p ptr buf).2.flatten
        (before ++ buf.map (.write p) ++ [.endOfWrites]) after ∧
      (bus.writeChunks p ptr buf).1.InStep after base ∧
      (bus.writeChunks p ptr buf).1.addrSet = bus.addrSet ∧
      (bus.writeChunks p ptr buf).1.lastaddr = strides p bus.lastaddr buf.length := by
  induction size : buf.length using Nat.strong_induction_on
    generalizing bus decoder between ptr before buf with
  | _ count ih =>
      subst size
      have taken : buf.take maxwrlen ≠ [] := by
        intro empty
        rcases List.take_eq_nil_iff.mp empty with none | nil
        · cases none
        · exact some nil
      obtain ⟨chunk, hears, wrote, kept, set, moved⟩ := writeWords_hears inStep p taken
      unfold writeChunks
      dsimp only
      split
      · next short =>
          rw [List.take_of_length_le short] at hears kept set moved ⊢
          obtain ⟨keeps, -, ended⟩ := chunk.feed_newline
          rw [if_pos wrote] at ended
          have newlines : chunk.Hears [newline] [.endOfWrites] (chunk.feed newline) :=
            ⟨rfl, by simpa [observed] using ended⟩
          have all := (start.append hears).append newlines
          refine ⟨chunk.feed newline, ?_, ⟨kept.mirrors.kept keeps, keeps.ready⟩, set, moved⟩
          simpa using all
      · next long =>
          have rest : buf.drop maxwrlen ≠ [] := by
            intro empty
            exact long (List.drop_eq_nil_iff.mp empty)
          have fewer : (buf.drop maxwrlen).length < buf.length := by
            rw [List.length_drop]
            unfold maxwrlen at *
            omega
          have fresh : chunk.Hears (([] : List Six).map charenc) [] chunk := .nil chunk
          obtain ⟨after, more, done, setToo, movedToo⟩ := ih _ fewer fresh kept rest rfl
          refine ⟨after, ?_, done, setToo.trans set, ?_⟩
          · have all := (start.append hears).append more
            have whole : buf.map (Command.write p) = (buf.take maxwrlen).map (.write p) ++
                (buf.drop maxwrlen).map (.write p) := by
              rw [← List.map_append, List.take_append_drop]
            rw [whole]
            simpa only [List.append_assoc, List.map_append, List.flatten_cons, List.nil_append]
              using all
          · rw [movedToo, moved, strides_add, List.length_take, List.length_drop]
            congr 1
            omega

/-- A whole `writev`: an address codeword or none, the writes, the end. -/
theorem writev_hears {bus : TtyBus} {decoder : Decoder} {base : BitVec 8}
    (inStep : bus.InStep decoder base)
    (lastAligned : bus.addrSet = true → bus.lastaddr &&& 3 = 0) {a : BitVec 32}
    (aligned : a &&& 3 = 0) (p : Bool) {buf : List (BitVec 32)} (some : buf ≠ []) :
    ∃ last bytes address after, bus.writev a p buf = .some (last, bytes) ∧
      decoder.Hears bytes (address ++ buf.map (.write p) ++ [.endOfWrites]) after ∧
      (address = [] ∧ (bus.addrSet = true ∧ a = bus.lastaddr) ∨
        ¬ (bus.addrSet = true ∧ a = bus.lastaddr) ∧
          ∃ command, address = [command] ∧ bus.Reaches a command) ∧
      last.InStep after base ∧ last.addrSet = true ∧ last.lastaddr = strides p a buf.length := by
  obtain ⟨rdaddr, chars, encoded, form⟩ := bus.encodeAddress_spells inStep.ready aligned lastAligned
  have shape : ∀ writes, ({ bus with rdaddr, lastaddr := a, addrSet := true } : TtyBus).writeChunks p
      chars buf = writes → bus.writev a p buf = .some (writes.1, writes.2.flatten) := by
    rintro writes rfl
    rw [writev, encoded]
    rfl
  have related : ∀ other : Decoder, bus.Mirrors other base → other.Ready →
      ({ bus with rdaddr, lastaddr := a, addrSet := true } : TtyBus).InStep other base := by
    intro other mirrors ready
    exact ⟨⟨mirrors.wrAddr, mirrors.table⟩, ready⟩
  rcases form with ⟨rfl, here⟩ | ⟨elsewhere, command, between, reaches, spells, kept⟩
  · have none : decoder.Hears (([] : List Six).map charenc) [] decoder := .nil decoder
    obtain ⟨after, hears, done, isSet, moved⟩ :=
      writeChunks_hears none (related decoder inStep.mirrors inStep.ready) p some
    exact ⟨_, _, [], after, shape _ rfl, hears, .inl ⟨rfl, here⟩, done, isSet, moved⟩
  · obtain ⟨after, hears, done, isSet, moved⟩ := writeChunks_hears spells.hears
      (related between (inStep.mirrors.kept kept) kept.ready) p some
    exact ⟨_, _, [command], after, shape _ rfl, hears, .inr ⟨elsewhere, command, rfl, reaches⟩,
      done, isSet, moved⟩

end TtyBus

/-! ### Calls -/

/-- The write calls of `TTYBUS`. -/
inductive Call where
  | writeio (a v : BitVec 32)
  | writei (a : BitVec 32) (buf : List (BitVec 32))
  | writez (a : BitVec 32) (buf : List (BitVec 32))
  deriving DecidableEq, Repr

namespace Call

def a : Call → BitVec 32
  | .writeio a _ => a
  | .writei a _ => a
  | .writez a _ => a

def p : Call → Bool
  | .writei _ _ => true
  | _ => false

def buf : Call → List (BitVec 32)
  | .writeio _ v => [v]
  | .writei _ buf => buf
  | .writez _ buf => buf

/-- The call itself; `writeio` sets the address once more. -/
def run (bus : TtyBus) : Call → Option (TtyBus × List Byte)
  | .writeio a v => (bus.writev a false [v]).map fun (last, bytes) =>
      ({ last with lastaddr := a, addrSet := true }, bytes)
  | .writei a buf => bus.writev a true buf
  | .writez a buf => bus.writev a false buf

def runAll (bus : TtyBus) : List Call → Option (TtyBus × List Byte)
  | [] => some (bus, [])
  | call :: rest =>
      (call.run bus).bind fun (next, bytes) =>
        (runAll next rest).map fun (last, more) => (last, bytes ++ more)

/-- Word-aligned, at least one word, and none past the top of the addresses. -/
structure Legal (call : Call) : Prop where
  aligned : call.a &&& 3 = 0
  some : call.buf ≠ []
  fits : call.p = true → call.a.toNat + 4 * call.buf.length ≤ 2 ^ 32

end Call

/-- `(start + i * p, buf[i])` for each word. -/
def writesFrom (start : BitVec 32) (p : Bool) (buf : List (BitVec 32)) : List Write :=
  buf.mapIdx fun i v => (start + BitVec.ofNat 32 (if p then i else 0), v)

/-- The writes asked for. -/
def Call.writes (call : Call) : List Write := writesFrom (call.a >>> 2) call.p call.buf

namespace Executor

def walk (start : BitVec 32) (p : Bool) (count : Nat) : BitVec 32 :=
  start + BitVec.ofNat 32 (if p then count else 0)

theorem walk_advance (start : BitVec 32) (p : Bool) (count : Nat) :
    walk (advance start p) p count = walk start p (count + 1) := by
  cases p with
  | false => rfl
  | true =>
      apply BitVec.eq_of_toNat_eq
      change (start + 1#32 + BitVec.ofNat 32 count).toNat = (start + BitVec.ofNat 32 (count + 1)).toNat
      simp only [BitVec.toNat_add, BitVec.toNat_ofNat]
      omega

theorem writesFrom_cons (start : BitVec 32) (p : Bool) (val : BitVec 32) (rest : List (BitVec 32)) :
    writesFrom start p (val :: rest) = (start, val) :: writesFrom (advance start p) p rest := by
  have head : start + BitVec.ofNat 32 (if p then 0 else 0) = start := by
    cases p <;> exact BitVec.add_zero start
  rw [writesFrom, List.mapIdx_cons, head, writesFrom]
  congr 2
  funext i v
  exact congrArg (·, v) (walk_advance start p i).symm

/-- A burst of writes goes by the increment of its first. -/
theorem takes_writes {executor : Executor} {p : Bool} {buf : List (BitVec 32)}
    (burst : executor.writing = none ∨ executor.writing = some p) (some : buf ≠ []) :
    executor.takes (buf.map (.write p)) =
      .some (⟨walk executor.addr p buf.length, .some p⟩, writesFrom executor.addr p buf) := by
  induction buf generalizing executor with
  | nil => exact absurd rfl some
  | cons val rest ih =>
      have used : executor.writing.getD p = p := by
        rcases burst with none | same
        · rw [none]
          rfl
        · rw [same]
          rfl
      rw [List.map_cons, takes, take, used, Option.bind_some, writesFrom_cons, List.length_cons,
        ← walk_advance]
      dsimp only
      cases rest with
      | nil => 
          cases p <;> simp [takes, walk, writesFrom]
      | cons next more =>
          rw [ih (.inr rfl) (List.cons_ne_nil _ _)]
          rfl

theorem takes_burst (start : BitVec 32) (p : Bool) {buf : List (BitVec 32)} (some : buf ≠ []) :
    (⟨start, none⟩ : Executor).takes (buf.map (.write p) ++ [.endOfWrites]) =
      .some (⟨walk start p buf.length, none⟩, writesFrom start p buf) := by
  have written : (⟨start, none⟩ : Executor).takes (buf.map (.write p)) = _ :=
    takes_writes (.inl rfl) some
  have stopped : (⟨walk start p buf.length, .some p⟩ : Executor).takes [.endOfWrites] =
      .some (⟨walk start p buf.length, none⟩, []) := rfl
  have both := takes_append written stopped
  rwa [List.append_nil] at both

end Executor

/-! ### Where the writes of a call start -/

/-- Where a device at `here` starts the writes of a call at `a`. -/
def Starts (bus : TtyBus) (here a start : BitVec 32) : Prop :=
  (bus.addrSet = true ∧ a = bus.lastaddr) ∧ start = here ∨
    ¬ (bus.addrSet = true ∧ a = bus.lastaddr) ∧
      (start = a >>> 2 ∨
        ∃ offset, bus.addrSet = true ∧ bus.lastaddr ≠ 0 ∧ bus.lastaddr >>> 2 + offset = a >>> 2 ∧
          start = here + offset)

/-- The device is where the host takes it to be, but for the two bits above the
addresses the host can name. -/
def Near (bus : TtyBus) (here : BitVec 32) : Prop :=
  bus.addrSet = true → here.toNat % 2 ^ 30 = bus.lastaddr.toNat / 4

/-- The device is exactly there, or has stepped over the top with `top`. -/
def At (bus : TtyBus) (here : BitVec 32) (top : Bool) : Prop :=
  bus.addrSet = true →
    if top then bus.lastaddr = 0 ∧ here = 0x40000000 else here = bus.lastaddr >>> 2

theorem Starts.near {bus : TtyBus} {here a start : BitVec 32} (starts : Starts bus here a start)
    (near : Near bus here) :
    start.toNat % 2 ^ 30 = a.toNat / 4 := by
  have := a.isLt
  rcases starts with ⟨⟨set, rfl⟩, rfl⟩ | ⟨-, rfl | ⟨offset, set, -, sum, rfl⟩⟩
  · exact near set
  · rw [TtyBus.shiftRight_toNat]
    omega
  · have near := near set
    have sum := congrArg BitVec.toNat sum
    rw [BitVec.toNat_add, TtyBus.shiftRight_toNat, TtyBus.shiftRight_toNat] at sum
    rw [BitVec.toNat_add]
    omega

theorem Starts.exact {bus : TtyBus} {here a start : BitVec 32} (starts : Starts bus here a start)
    {top : Bool} (at' : At bus here top) (fair : ¬ (top = true ∧ a = 0)) : start = a >>> 2 := by
  rcases starts with ⟨⟨set, rfl⟩, rfl⟩ | ⟨-, rfl | ⟨offset, set, notZero, sum, rfl⟩⟩
  · cases top with
    | false => exact at' set
    | true => exact absurd ⟨rfl, (at' set).1⟩ fair
  · rfl
  · cases top with
    | false => rw [← sum, ← show here = bus.lastaddr >>> 2 from at' set]
    | true => exact absurd (at' set).1 notZero

/-- A call at 0 behind a step over the top goes on past it. -/
theorem Starts.pastTop {bus : TtyBus} {here a start : BitVec 32} (starts : Starts bus here a start)
    (set : bus.addrSet = true) (at' : At bus here true) (zero : a = 0) : start = 0x40000000 := by
  obtain ⟨last, there⟩ := at' set
  rcases starts with ⟨-, rfl⟩ | ⟨elsewhere, -⟩
  · exact there
  · exact absurd ⟨set, zero.trans last.symm⟩ elsewhere

namespace Call

/-- The call ends with the last word there is. -/
def EndsAtTop (call : Call) : Prop := call.p = true ∧ call.a.toNat + 4 * call.buf.length = 2 ^ 32

instance (call : Call) : Decidable call.EndsAtTop := inferInstanceAs (Decidable (_ ∧ _))

/-- What one call does, on both sides. -/
theorem run_takes {bus : TtyBus} {decoder : Decoder} {base : BitVec 8}
    (inStep : bus.InStep decoder base)
    (lastAligned : bus.addrSet = true → bus.lastaddr &&& 3 = 0) {call : Call} (legal : call.Legal)
    (here : BitVec 32) :
    ∃ last bytes commands after start, call.run bus = some (last, bytes) ∧
      decoder.Hears bytes commands after ∧
      (⟨here, none⟩ : Executor).takes commands =
        some (⟨Executor.walk start call.p call.buf.length, none⟩,
          writesFrom start call.p call.buf) ∧
      Starts bus here call.a start ∧ last.InStep after base ∧ last.addrSet = true ∧
      last.lastaddr = TtyBus.strides call.p call.a call.buf.length := by
  obtain ⟨last, bytes, address, after, run, hears, form, done, set, moved⟩ :=
    TtyBus.writev_hears inStep lastAligned legal.aligned call.p legal.some
  have whole : ∃ final, call.run bus = some (final, bytes) ∧ final.InStep after base ∧
      final.addrSet = true ∧ final.lastaddr = TtyBus.strides call.p call.a call.buf.length := by
    cases call with
    | writeio a v =>
        refine ⟨{ last with lastaddr := a, addrSet := true }, ?_, ?_, rfl, rfl⟩
        · rw [Call.run]
          exact congrArg _ run
        · exact ⟨⟨done.mirrors.wrAddr, done.mirrors.table⟩, done.ready⟩
    | writei a buf => exact ⟨last, run, done, set, moved⟩
    | writez a buf => exact ⟨last, run, done, set, moved⟩
  obtain ⟨final, called, inStepToo, setToo, movedToo⟩ := whole
  rcases form with ⟨rfl, there⟩ | ⟨elsewhere, command, rfl, reaches⟩
  · exact ⟨final, bytes, _, after, here, called, hears,
      Executor.takes_burst here call.p legal.some, .inl ⟨there, rfl⟩, inStepToo, setToo, movedToo⟩
  · have addressed : ∃ start, (⟨here, none⟩ : Executor).takes [command] =
        some (⟨start, none⟩, []) ∧ Starts bus here call.a start := by
      rcases reaches with rfl | ⟨offset, rfl, known, notZero, sum⟩
      · exact ⟨call.a >>> 2, rfl, .inr ⟨elsewhere, .inl rfl⟩⟩
      · exact ⟨here + offset, rfl, .inr ⟨elsewhere, .inr ⟨offset, known, notZero, sum, rfl⟩⟩⟩
    obtain ⟨start, reached, starts⟩ := addressed
    have both := Executor.takes_append reached (Executor.takes_burst start call.p legal.some)
    rw [List.append_assoc] at hears
    exact ⟨final, bytes, _, after, start, called, hears, both, starts, inStepToo, setToo, movedToo⟩

theorem strides_toNat (call : Call) :
    (TtyBus.strides call.p call.a call.buf.length).toNat =
      (call.a.toNat + 4 * (if call.p then call.buf.length else 0)) % 2 ^ 32 := by
  have := call.a.isLt
  cases inc : call.p with
  | false =>
      simp only [TtyBus.strides]
      simp
      omega
  | true =>
      simp only [TtyBus.strides, BitVec.toNat_add, BitVec.toNat_ofNat, if_true]
      omega

/-- Host and device stay together over a call. -/
theorem near_after {call : Call} (legal : call.Legal) {start : BitVec 32} {last : TtyBus}
    (near : start.toNat % 2 ^ 30 = call.a.toNat / 4)
    (moved : last.lastaddr = TtyBus.strides call.p call.a call.buf.length) :
    Near last (Executor.walk start call.p call.buf.length) := by
  intro _
  have aligned := TtyBus.aligned_iff.mp legal.aligned
  rw [moved, strides_toNat call, Executor.walk, BitVec.toNat_add, BitVec.toNat_ofNat]
  omega

theorem at_after {call : Call} (legal : call.Legal) {last : TtyBus}
    (moved : last.lastaddr = TtyBus.strides call.p call.a call.buf.length) :
    At last (Executor.walk (call.a >>> 2) call.p call.buf.length) (decide call.EndsAtTop) := by
  intro _
  have aligned := TtyBus.aligned_iff.mp legal.aligned
  have total := strides_toNat call
  have := call.a.isLt
  have shifted := TtyBus.shiftRight_toNat call.a
  rw [moved]
  by_cases top : call.EndsAtTop
  · obtain ⟨inc, sum⟩ := top
    rw [inc, if_pos rfl] at total
    rw [decide_eq_true ⟨inc, sum⟩, if_pos rfl, inc]
    refine ⟨BitVec.eq_of_toNat_eq ?_, BitVec.eq_of_toNat_eq ?_⟩
    · rw [total, sum]
      rfl
    · rw [Executor.walk, if_pos rfl, BitVec.toNat_add, shifted, BitVec.toNat_ofNat]
      change _ = 2 ^ 30
      omega
  · rw [decide_eq_false top, if_neg Bool.false_ne_true]
    apply BitVec.eq_of_toNat_eq
    rw [TtyBus.shiftRight_toNat, total, Executor.walk, BitVec.toNat_add, shifted,
      BitVec.toNat_ofNat]
    cases inc : call.p with
    | false =>
        simp
        omega
    | true =>
        have fits := legal.fits inc
        have short : call.a.toNat + 4 * call.buf.length ≠ 2 ^ 32 := fun sum => top ⟨inc, sum⟩
        rw [if_pos rfl]
        omega

theorem aligned_after {call : Call} (legal : call.Legal) :
    TtyBus.strides call.p call.a call.buf.length &&& 3 = 0 := by
  have aligned := TtyBus.aligned_iff.mp legal.aligned
  rw [TtyBus.aligned_iff, strides_toNat]
  omega

end Call

/-! ### Sequences of calls -/

/-- A write by the word it reaches: the host's addresses name 2 ^ 30 words. -/
def lowWrite (write : Write) : BitVec 30 × BitVec 32 := (write.1.setWidth 30, write.2)

theorem lowWrite_writesFrom {first second : BitVec 32} (p : Bool) (buf : List (BitVec 32))
    (same : first.toNat % 2 ^ 30 = second.toNat % 2 ^ 30) :
    (writesFrom first p buf).map lowWrite = (writesFrom second p buf).map lowWrite := by
  induction buf generalizing first second with
  | nil => rfl
  | cons val rest ih =>
      rw [Executor.writesFrom_cons, Executor.writesFrom_cons, List.map_cons, List.map_cons]
      congr 1
      · exact Prod.ext (BitVec.eq_of_toNat_eq (by simpa [lowWrite] using same)) rfl
      · apply ih
        cases p with
        | false => exact same
        | true =>
            change (first + 1#32).toNat % _ = (second + 1#32).toNat % _
            rw [BitVec.toNat_add, BitVec.toNat_add]
            omega

theorem writesFrom_inj {first second : BitVec 32} {p : Bool} {buf : List (BitVec 32)}
    (some : buf ≠ []) (same : writesFrom first p buf = writesFrom second p buf) :
    first = second := by
  obtain ⟨val, rest, rfl⟩ := List.exists_cons_of_ne_nil some
  rw [Executor.writesFrom_cons, Executor.writesFrom_cons] at same
  exact congrArg Prod.fst (List.cons.inj same).1

/-- A call at 0 that directly follows one that ended at the top. -/
def Wraps (earlier later : Call) : Prop := earlier.EndsAtTop ∧ later.a = 0

/-- The calls of a sequence, from a host in step with the device. -/
theorem runAll_takes {bus : TtyBus} {decoder : Decoder} {base : BitVec 8}
    (inStep : bus.InStep decoder base)
    (lastAligned : bus.addrSet = true → bus.lastaddr &&& 3 = 0) {calls : List Call}
    (legal : ∀ call ∈ calls, call.Legal) (here : BitVec 32) (near : Near bus here) :
    ∃ last bytes commands after there writes, Call.runAll bus calls = some (last, bytes) ∧
      decoder.Hears bytes commands after ∧
      (⟨here, none⟩ : Executor).takes commands = some (⟨there, none⟩, writes) ∧
      writes.map lowWrite = (calls.flatMap Call.writes).map lowWrite ∧
      ∀ top, At bus here top → (top = true → bus.addrSet = true) →
        (writes = calls.flatMap Call.writes ↔
          (∀ call ∈ calls.head?, ¬ (top = true ∧ call.a = 0)) ∧
            calls.IsChain fun earlier later => ¬ Wraps earlier later) := by
  induction calls generalizing bus decoder here with
  | nil =>
      refine ⟨bus, [], [], decoder, here, [], rfl, .nil decoder, rfl, rfl, ?_⟩
      intro top _ _
      simp
  | cons call rest ih =>
      have isLegal := legal call (.head _)
      obtain ⟨next, first, commands, between, start, run, hears, took, starts, kept, set, moved⟩ :=
        Call.run_takes inStep lastAligned isLegal here
      have close := starts.near near
      obtain ⟨last, more, later, after, there, writes, runs, heard, taken, low, exactly⟩ :=
        ih kept (fun _ => by rw [moved]; exact Call.aligned_after isLegal)
          (fun other member => legal other (.tail _ member)) _
          (Call.near_after isLegal close moved)
      refine ⟨last, first ++ more, commands ++ later, after, there,
        writesFrom start call.p call.buf ++ writes, ?_, hears.append heard,
        Executor.takes_append took taken, ?_, ?_⟩
      · rw [Call.runAll, run, Option.bind_some]
        dsimp only
        rw [runs]
        rfl
      · rw [List.flatMap_cons, List.map_append, List.map_append, low]
        congr 1
        refine lowWrite_writesFrom call.p call.buf ?_
        have := call.a.isLt
        rw [close, TtyBus.shiftRight_toNat]
        omega
      · intro top placed known
        rw [List.flatMap_cons, List.isChain_cons]
        by_cases pastTop : top = true ∧ call.a = 0
        · -- the host sends no address and the device goes on past the top
          obtain ⟨rfl, zero⟩ := pastTop
          have past := starts.pastTop (known rfl) placed zero
          constructor
          · intro same
            have heads := (List.append_inj same (by simp [Call.writes, writesFrom])).1
            have wrong := writesFrom_inj isLegal.some heads
            rw [past, zero] at wrong
            cases wrong
          · intro fair
            exact absurd ⟨rfl, zero⟩ (fair.1 call rfl)
        · have begun := starts.exact placed pastTop
          subst begun
          rw [Call.writes, List.append_cancel_left_eq,
            exactly (decide call.EndsAtTop) (Call.at_after isLegal moved) (fun _ => set)]
          constructor
          · rintro ⟨fair, chain⟩
            refine ⟨fun head member => ?_, fun head member wraps => ?_, chain⟩
            · obtain rfl := Option.mem_some_iff.mp member
              exact pastTop
            · exact fair head member ⟨decide_eq_true wraps.1, wraps.2⟩
          · rintro ⟨-, fair, chain⟩
            refine ⟨fun head member wraps => ?_, chain⟩
            exact fair head member ⟨of_decide_eq_true wraps.1, wraps.2⟩

/-! ### The write path -/

theorem Follows.pending_nil {exec : Exec} {addr : BitVec 32} {pending : List Write}
    (follows : Follows exec ⟨addr, none⟩ pending) : pending = [] := by
  cases follows with
  | idle => rfl
  | request _ _ _ _ same => cases same
  | wait => rfl
  | ack => rfl

/-- The writes of any sequence of calls reach the bus in order, none lost or
repeated, with their data and at their words. The addresses are the same 32-bit
numbers too, unless a call at 0 directly follows one that ended at the top. -/
theorem writes_reach_bus {calls : List Call} (legal : ∀ call ∈ calls, call.Legal) {bus : TtyBus}
    (addrSet : bus.addrSet = false) (wrloaded : bus.wrloaded = false) (wraddr : bus.wraddr = 0)
    {device : Device} {decoder : Decoder} (tracks : Tracks device.input decoder)
    (ready : decoder.Ready) (idle : device.exec.state = .idle) (strobe : device.exec.stb = false) :
    ∃ last bytes, Call.runAll bus calls = some (last, bytes) ∧
      ∀ clocks : List Clock, Spaced (fun clock => clock.serial.char) 7 clocks bytes →
        (∀ clock ∈ clocks, clock.bus.err = false) →
        observed Device.step Device.early device clocks = [] →
        (observed Device.step Device.writes device clocks).map lowWrite =
            (calls.flatMap Call.writes).map lowWrite ∧
          (observed Device.step Device.writes device clocks = calls.flatMap Call.writes ↔
            calls.IsChain fun earlier later => ¬ Wraps earlier later) := by
  have unset : ∀ {conclusion : Prop}, bus.addrSet = true → conclusion := by
    intro conclusion set
    rw [addrSet] at set
    cases set
  have mirrors : bus.Mirrors decoder decoder.wrAddr := by
    refine ⟨by rw [wraddr]; exact (BitVec.add_zero _).symm, ?_⟩
    rintro index ⟨-, loaded | below⟩
    · rw [wrloaded] at loaded
      cases loaded
    · rw [wraddr] at below
      exact absurd below (Nat.not_lt_zero _)
  obtain ⟨last, bytes, commands, after, there, writes, run, hears, taken, low, exactly⟩ :=
    runAll_takes ⟨mirrors, ready⟩ unset legal device.exec.addr unset
  refine ⟨last, bytes, run, fun clocks spaced noErr inTime => ?_⟩
  have words := (wbuinput_settles.run ((spaced_map_iff Clock.serial).mpr spaced) tracks).2
  have heard := hears.heard
  rw [← words] at heard
  obtain ⟨later, follows, total⟩ := follows_run (.idle idle strobe rfl) noErr inTime
    (by rw [words]; exact observed_all Decoder.emit_plain) (heard ▸ taken)
  rw [follows.pending_nil, List.nil_append, List.append_nil] at total
  rw [← total]
  refine ⟨low, (exactly false unset (fun set => nomatch set)).trans ?_⟩
  simp

/-- A device in reset, for runs on fixed inputs. -/
def Device.reset : Device where
  input := WbuInput.reset
  exec := ⟨.idle, false, false, false, 0, 0, false, 0, 0, 0, false, true, false, false, false, false⟩

/-- A bus that acknowledges each request at once. -/
def responding : Device → List Serial → List Clock
  | _, [] => []
  | device, serial :: rest =>
      let clock : Clock := ⟨serial, ⟨false, device.exec.stb, false, 0⟩⟩
      clock :: responding (device.step clock) rest

theorem responding_serial (device : Device) (serials : List Serial) :
    (responding device serials).map Clock.serial = serials := by
  induction serials generalizing device with
  | nil => rfl
  | cons serial rest ih => rw [responding, List.map_cons, ih]

theorem responding_spaced (device : Device) (bytes : List Byte) :
    Spaced (fun clock => clock.serial.char) 7 (responding device (paced bytes)) bytes := by
  rw [← spaced_map_iff, responding_serial]
  exact paced_spaced bytes

theorem responding_noErr (device : Device) (serials : List Serial) :
    ∀ clock ∈ responding device serials, clock.bus.err = false := by
  induction serials generalizing device with
  | nil => intro clock member; cases member
  | cons serial rest ih =>
      intro clock member
      rcases List.mem_cons.mp member with rfl | later
      · rfl
      · exact ih _ clock later

/-- A `writei` of two equal words: raw, then by reference. -/
theorem two_words_written : ∃ last bytes,
    Call.runAll TtyBus.fresh [.writei 0x1000 [5, 5]] = some (last, bytes) ∧
      observed Device.step Device.writes Device.reset (responding Device.reset (paced bytes)) =
        [(0x400, 5), (0x401, 5)] := by
  have legal : ∀ call ∈ [Call.writei 0x1000 [5, 5]], call.Legal := by
    intro call member
    rw [List.mem_singleton.mp member]
    exact ⟨rfl, by decide, by decide⟩
  obtain ⟨last, bytes, run, written⟩ := writes_reach_bus legal (show TtyBus.fresh.addrSet = false
    from rfl) rfl rfl (show Tracks Device.reset.input Decoder.reset from reset_tracks) ⟨rfl, rfl⟩
    rfl rfl
  have chars : (Call.runAll TtyBus.fresh [.writei 0x1000 [5, 5]]).map Prod.snd =
      some (([0x0a, 0x10, 0x00, 0x19, 0, 0, 0, 0, 5, 0x11, 0x01] : List Six).map charenc ++
        [newline]) := by
    have two : ([5, 5] : List (BitVec 32)).length ≤ TtyBus.maxwrlen := by decide
    simp only [Call.runAll, Call.run, TtyBus.writev, TtyBus.writeChunks_short two]
    decide +kernel
  rw [run] at chars
  cases chars
  refine ⟨last, _, run, ?_⟩
  exact (written _ (responding_spaced _ _) (responding_noErr _ _) (by decide +kernel)).2.mpr
    (List.isChain_singleton _)

/-- `writei` of the last word there is, then `writeio` at 0: the host sends no
address, and the device writes on above it. -/
theorem word_past_top : ∃ last bytes,
    Call.runAll TtyBus.fresh [.writei 0xfffffffc [7], .writeio 0 7] = some (last, bytes) ∧
      Spaced (fun clock => clock.serial.char) 7 (responding Device.reset (paced bytes)) bytes ∧
      (∀ clock ∈ responding Device.reset (paced bytes), clock.bus.err = false) ∧
      observed Device.step Device.early Device.reset (responding Device.reset (paced bytes)) = [] ∧
      observed Device.step Device.writes Device.reset (responding Device.reset (paced bytes)) =
        [(0x3fffffff, 7), (0x40000000, 7)] ∧
      [Call.writei 0xfffffffc [7], .writeio 0 7].flatMap Call.writes = [(0x3fffffff, 7), (0, 7)] := by
  have chars : (Call.runAll TtyBus.fresh [.writei 0xfffffffc [7], .writeio 0 7]).map Prod.snd =
      some (([0, 0x3f, 0x3f, 0x3f, 0x3f, 0x3f, 0x19, 0, 0, 0, 0, 7] : List Six).map charenc ++
        [newline] ++ ([0x10, 0x01] : List Six).map charenc ++ [newline]) := by
    have one : ([7] : List (BitVec 32)).length ≤ TtyBus.maxwrlen := by decide
    simp only [Call.runAll, Call.run, TtyBus.writev, TtyBus.writeChunks_short one]
    decide +kernel
  obtain ⟨⟨last, bytes⟩, run, rfl⟩ := Option.map_eq_some_iff.mp chars
  exact ⟨last, _, run, responding_spaced _ _, responding_noErr _ _, by decide +kernel,
    by decide +kernel, by decide⟩

end ZipVersa.DebugBus
