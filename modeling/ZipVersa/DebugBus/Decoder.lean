import Mathlib.Data.List.Basic
import Mathlib.Tactic.Common
import Mathlib.Tactic.IntervalCases
import ZipVersa.DebugBus.Input

/-! What the input side does to a character, once the pipeline behind it has
drained. `Decoder` keeps the registers that matter between characters, and
`wbuinput_settles` says that the circuit follows it when characters are at
least seven clocks apart; a serial character takes ten or more. -/

set_option autoImplicit false

namespace ZipVersa.DebugBus

open Lib

structure Decoder where
  rLen : BitVec 3
  cwLen : BitVec 3
  shiftreg : Word
  lastcw : BitVec 2
  wrAddr : BitVec 8
  compressionTbl : BitVec 8 → BitVec 32

namespace Decoder

/-- A complete codeword on its way through `wbudecompress`. -/
def pass (decoder : Decoder) (word : Word) : Decoder :=
  { decoder with
    rLen := 0
    cwLen := 0
    lastcw := word.extractLsb' 34 2
    wrAddr := if word.extractLsb' 33 3 = 0b011 then decoder.wrAddr + 1 else decoder.wrAddr
    compressionTbl := Function.update decoder.compressionTbl decoder.wrAddr (codData word) }

/-- What comes out for it. -/
def expand (decoder : Decoder) (word : Word) : Word :=
  Decompress.unpack word (Decompress.nextAddr word)
    ((decoder.pass word).compressionTbl
      (decoder.wrAddr - (word.extractLsb' 31 2 ++ word.extractLsb' 24 6)))
    (Decompress.nextLen word)

/-- The codeword a character completes. -/
def completes (decoder : Decoder) (byte : Byte) : Option Word :=
  if (toHex byte).1 then
    let cwLen := if decoder.cwLen = 0 then codwordLen (toHex byte).2 else decoder.cwLen
    if decoder.rLen + 1 = cwLen then
      some (setSlot decoder.shiftreg decoder.rLen.toNat (toHex byte).2)
    else none
  else if decoder.lastcw = 0b01 then some (setSlot decoder.shiftreg 0 0x2e)
  else none

/-- The registers of `wbureadcw` after a character that completes nothing. -/
def collect (decoder : Decoder) (byte : Byte) : Decoder :=
  if (toHex byte).1 then
    { decoder with
      rLen := decoder.rLen + 1
      cwLen := if decoder.cwLen = 0 then codwordLen (toHex byte).2 else decoder.cwLen
      shiftreg := setSlot decoder.shiftreg decoder.rLen.toNat (toHex byte).2 }
  else if decoder.lastcw = 0b01 then { decoder with rLen := 0, cwLen := 0 }
  else
    { decoder with
      rLen := 0
      cwLen := 0
      shiftreg := setSlot decoder.shiftreg decoder.rLen.toNat (toHex byte).2 }

def feed (decoder : Decoder) (byte : Byte) : Decoder :=
  match decoder.completes byte with
  | some word => (decoder.collect byte).pass word
  | none => decoder.collect byte

def emit (decoder : Decoder) (byte : Byte) : List Word :=
  match decoder.completes byte with
  | some word => [(decoder.collect byte).expand word]
  | none => []

end Decoder

/-! ### The stages, one edge at a time -/

namespace Decompress

/-- Nothing is in the pipeline. -/
structure Quiet (dc : Decompress) : Prop where
  rStb : dc.rStb = 0
  stb : dc.stb = false

theorem quiet_step {dc : Decompress} (rStb : dc.rStb = 0) (word : Word) :
    (dc.step false word).Quiet ∧ (dc.step false word).wrAddr = dc.wrAddr ∧
      (dc.step false word).compressionTbl = dc.compressionTbl := by
  refine ⟨⟨?_, ?_⟩, ?_, rfl⟩
  · simp [Decompress.step, rStb]
  · simp [Decompress.step, rStb]
  · simp [Decompress.step]

/-- A word reaches the output four edges after it came in. -/
theorem Quiet.word {dc : Decompress} (quiet : dc.Quiet) (word first second third : Word) :
    let entered := dc.step true word
    let indexed := entered.step false first
    let looked := indexed.step false second
    let done := looked.step false third
    entered.stb = false ∧ indexed.stb = false ∧ looked.stb = false ∧ done.stb = true ∧
      done.rStb = 0 ∧ done.wrAddr = entered.wrAddr ∧
      done.compressionTbl = entered.compressionTbl ∧
      done.word = unpack word (nextAddr word) (entered.compressionTbl
        (dc.wrAddr - (word.extractLsb' 31 2 ++ word.extractLsb' 24 6))) (nextLen word) := by
  simp [Decompress.step, quiet.rStb]

end Decompress

namespace ReadCw

/-- Between characters: no codeword is complete. -/
def Open (cw : ReadCw) : Prop :=
  cw.rLen = 0 ∧ cw.cwLen = 0 ∨
    0 < cw.rLen.toNat ∧ cw.rLen.toNat < cw.cwLen.toNat ∧ cw.cwLen.toNat ≤ 6

theorem Open.wStb {cw : ReadCw} (isOpen : cw.Open) (valid : Bool) : cw.wStb false valid = false := by
  rcases isOpen with ⟨empty, none⟩ | ⟨-, shorter, -⟩
  · simp [ReadCw.wStb, empty, none]
  · have different : cw.rLen ≠ cw.cwLen := by
      intro same
      rw [same] at shorter
      exact Nat.lt_irrefl _ shorter
    simp [ReadCw.wStb, different]

theorem Open.step {cw : ReadCw} (isOpen : cw.Open) (valid : Bool) (hexbits : Six) :
    cw.step false valid hexbits =
      { cw with
        lastcw := if cw.stb then cw.codword.extractLsb' 34 2 else cw.lastcw
        stb := false
        codword := cw.shiftreg } := by
  simp [ReadCw.step, isOpen.wStb]

end ReadCw

theorem setSlot_zero_congr {first second : Word} (value : Six)
    (low : first.extractLsb' 0 30 = second.extractLsb' 0 30) :
    setSlot first 0 value = setSlot second 0 value := by
  rw [setSlot, setSlot, low]

theorem setSlot_zero_low (word : Word) (value : Six) :
    (setSlot word 0 value).extractLsb' 0 30 = word.extractLsb' 0 30 := by
  ext position inside
  simp [setSlot]
  grind

theorem codwordLen_pos (hexbits : Six) :
    0 < (codwordLen hexbits).toNat ∧ (codwordLen hexbits).toNat ≤ 6 := by
  revert hexbits
  decide +kernel

/-! ### Tracking -/

/-- The registers of `wbureadcw` that outlive a character. The first six bits
of the shift register are junk while no character has come in. -/
structure ReadCw.Same (cw : ReadCw) (decoder : Decoder) : Prop where
  rLen : cw.rLen = decoder.rLen
  cwLen : cw.cwLen = decoder.cwLen
  low : cw.shiftreg.extractLsb' 0 30 = decoder.shiftreg.extractLsb' 0 30
  whole : decoder.rLen ≠ 0 → cw.shiftreg = decoder.shiftreg

structure Decompress.Same (dc : Decompress) (decoder : Decoder) : Prop where
  quiet : dc.Quiet
  wrAddr : dc.wrAddr = decoder.wrAddr
  table : dc.compressionTbl = decoder.compressionTbl

structure ReadCw.Rests (cw : ReadCw) (decoder : Decoder) : Prop where
  stb : cw.stb = false
  isOpen : cw.Open
  same : cw.Same decoder
  lastcw : cw.lastcw = decoder.lastcw
  copied : cw.codword.extractLsb' 0 30 = cw.shiftreg.extractLsb' 0 30

/-- The circuit has digested everything and holds what the decoder holds. -/
structure Tracks (input : WbuInput) (decoder : Decoder) : Prop where
  hexStb : input.hex.stb = false
  cw : input.cw.Rests decoder
  dc : input.dc.Same decoder

theorem Decompress.Same.step {dc : Decompress} {decoder : Decoder} (same : dc.Same decoder)
    (word : Word) : (dc.step false word).Same decoder := by
  obtain ⟨quiet, wrAddr, table⟩ := Decompress.quiet_step same.quiet.rStb word
  exact ⟨quiet, wrAddr.trans same.wrAddr, table.trans same.table⟩

namespace ReadCw

variable {cw : ReadCw} {decoder : Decoder} {byte : Byte}

theorem Same.setSlot (same : cw.Same decoder) (value : Six) :
    DebugBus.setSlot cw.shiftreg cw.rLen.toNat value =
      DebugBus.setSlot decoder.shiftreg decoder.rLen.toNat value := by
  rw [same.rLen]
  by_cases empty : decoder.rLen = 0
  · rw [empty]
    exact setSlot_zero_congr value same.low
  · rw [same.whole empty]

theorem Rests.step (rests : cw.Rests decoder) (valid : Bool) (hexbits : Six) :
    (cw.step false valid hexbits).Rests decoder := by
  rw [rests.isOpen.step, rests.stb]
  exact ⟨rfl, rests.isOpen,
    ⟨rests.same.rLen, rests.same.cwLen, rests.same.low, rests.same.whole⟩, rests.lastcw, rfl⟩

/-- The edge at which a character of the code is taken in. -/
theorem Open.take (isOpen : cw.Open) (stb : cw.stb = false) (hexbits : Six) :
    cw.step true true hexbits =
      { cw with
        rLen := cw.rLen + 1
        cwLen := if cw.cwLen = 0 then codwordLen hexbits else cw.cwLen
        shiftreg := DebugBus.setSlot cw.shiftreg cw.rLen.toNat hexbits
        codword := cw.shiftreg } := by
  have waiting : cw.wStb true true = false := by
    have := isOpen.wStb true
    simpa [ReadCw.wStb] using this
  simp [ReadCw.step, waiting, stb]

/-- The length in force once a character of the code is taken in, with the
characters counted so far. -/
theorem Open.lens (isOpen : cw.Open) (hexbits : Six) :
    (cw.rLen + 1).toNat = cw.rLen.toNat + 1 ∧
      cw.rLen.toNat < (if cw.cwLen = 0 then codwordLen hexbits else cw.cwLen).toNat ∧
      (if cw.cwLen = 0 then codwordLen hexbits else cw.cwLen).toNat ≤ 6 := by
  obtain ⟨positive, bounded⟩ := codwordLen_pos hexbits
  rcases isOpen with ⟨empty, none⟩ | ⟨some, shorter, bound⟩
  · rw [empty, if_pos none]
    exact ⟨rfl, positive, bounded⟩
  · have announced : cw.cwLen ≠ 0 := by
      intro zero
      rw [zero] at shorter
      exact Nat.not_lt_zero _ shorter
    rw [if_neg announced]
    refine ⟨?_, shorter, bound⟩
    rw [BitVec.toNat_add]
    change (cw.rLen.toNat + 1) % 8 = _
    omega

/-- The edge at which a character that completes nothing is taken in. -/
theorem Same.collect (same : cw.Same decoder) (isOpen : cw.Open)
    (lastcw : cw.lastcw = decoder.lastcw) (stb : cw.stb = false)
    (none : decoder.completes byte = none) :
    (cw.step true (toHex byte).1 (toHex byte).2).Same (decoder.collect byte) ∧
      (cw.step true (toHex byte).1 (toHex byte).2).Open ∧
      (cw.step true (toHex byte).1 (toHex byte).2).stb = false ∧
      (cw.step true (toHex byte).1 (toHex byte).2).lastcw = (decoder.collect byte).lastcw := by
  unfold Decoder.completes at none
  unfold Decoder.collect
  cases valid : (toHex byte).1 with
  | true =>
      simp only [valid, if_true, ite_eq_right_iff, reduceCtorEq, imp_false] at none
      obtain ⟨counted, within, bound⟩ := isOpen.lens (toHex byte).2
      rw [← same.rLen, ← same.cwLen] at none
      rw [isOpen.take stb]
      have slots := same.setSlot (toHex byte).2
      refine ⟨⟨?_, ?_, ?_, ?_⟩, ?_, stb, lastcw⟩
      · simp [same.rLen]
      · simp [same.cwLen]
      · simp [slots]
      · simp [slots]
      · right
        have unequal : (cw.rLen + 1).toNat ≠
            (if cw.cwLen = 0 then codwordLen (toHex byte).2 else cw.cwLen).toNat :=
          fun equal => none (BitVec.eq_of_toNat_eq equal)
        exact ⟨by dsimp only; omega, by dsimp only; omega, bound⟩
  | false =>
      have notWriting : decoder.lastcw ≠ 1#2 := by
        intro writing
        simp [valid, writing] at none
      have silent : cw.wStb true false = false := by
        have := isOpen.wStb true
        simpa [ReadCw.wStb, lastcw, notWriting] using this
      have slots := same.setSlot (toHex byte).2
      refine ⟨⟨?_, ?_, ?_, ?_⟩, ?_, ?_, ?_⟩
      · simp [ReadCw.step, notWriting]
      · simp [ReadCw.step, notWriting]
      · simp [ReadCw.step, silent, slots, notWriting]
      · simp [notWriting]
      · left
        simp [ReadCw.step]
      · simp [ReadCw.step, silent]
      · simp [ReadCw.step, stb, lastcw, notWriting]

/-- A newline after writes becomes an end-of-writes codeword at once. -/
theorem Same.newline (same : cw.Same decoder)
    (lastcw : cw.lastcw = decoder.lastcw)
    (copied : cw.codword.extractLsb' 0 30 = cw.shiftreg.extractLsb' 0 30)
    (invalid : (toHex byte).1 = false) (writing : decoder.lastcw = 0b01) :
    (cw.step true (toHex byte).1 (toHex byte).2).Same (decoder.collect byte) ∧
      (cw.step true (toHex byte).1 (toHex byte).2).Open ∧
      (cw.step true (toHex byte).1 (toHex byte).2).stb = true ∧
      (cw.step true (toHex byte).1 (toHex byte).2).codword =
        DebugBus.setSlot decoder.shiftreg 0 0x2e := by
  have strobe : cw.wStb true false = true := by
    simp [ReadCw.wStb, lastcw, writing]
  refine ⟨⟨?_, ?_, ?_, ?_⟩, ?_, ?_, ?_⟩
  · simp [ReadCw.step, Decoder.collect, invalid, writing]
  · simp [ReadCw.step, Decoder.collect, invalid, writing]
  · simp only [ReadCw.step, Decoder.collect, invalid, strobe, writing, if_true,
      Bool.false_eq_true, if_false]
    exact (setSlot_zero_low _ _).trans same.low
  · simp [Decoder.collect, invalid, writing]
  · left
    simp [ReadCw.step, invalid]
  · simp [ReadCw.step, invalid, strobe]
  · simp only [ReadCw.step, invalid, lastcw, writing, beq_self_eq_true, Bool.not_false,
      Bool.and_self, if_true]
    exact setSlot_zero_congr _ (copied.trans same.low)

/-- The last character of a codeword, and the edge after it. -/
theorem Same.complete (same : cw.Same decoder) (isOpen : cw.Open) (stb : cw.stb = false)
    (lastcw : cw.lastcw = decoder.lastcw) {word : Word} (valid : (toHex byte).1 = true)
    (completes : decoder.completes byte = some word) (junk : Bool) (hexbits : Six) :
    let taken := cw.step true (toHex byte).1 (toHex byte).2
    let after := taken.step false junk hexbits
    taken.stb = false ∧ after.stb = true ∧ after.codword = word ∧ after.rLen = 0 ∧
      after.cwLen = 0 ∧ after.lastcw = decoder.lastcw ∧
      after.shiftreg.extractLsb' 0 30 = (decoder.collect byte).shiftreg.extractLsb' 0 30 := by
  unfold Decoder.completes at completes
  unfold Decoder.collect
  simp only [valid, if_true, Option.ite_none_right_eq_some, Option.some.injEq] at completes ⊢
  obtain ⟨full, rfl⟩ := completes
  obtain ⟨-, within, -⟩ := isOpen.lens (toHex byte).2
  have slots := same.setSlot (toHex byte).2
  rw [← same.rLen, ← same.cwLen] at full
  have announced : (if cw.cwLen = 0 then codwordLen (toHex byte).2 else cw.cwLen) ≠ 0 := by
    intro zero
    rw [zero] at within
    exact Nat.not_lt_zero _ within
  rw [isOpen.take stb, slots]
  simp only [ReadCw.step, ReadCw.wStb, full, beq_self_eq_true, Bool.true_and, bne_iff_ne, ne_eq,
    announced, not_false_eq_true, Bool.false_and, Bool.or_false, Bool.false_eq_true, if_false,
    if_true, stb, lastcw, true_and]
  exact setSlot_zero_low _ _

end ReadCw

theorem Serial.stb_of_none {serial : Serial} (none : serial.char = none) :
    serial.stb = false := by
  unfold Serial.char at none
  cases strobe : serial.stb with
  | false => rfl
  | true => simp [strobe] at none

theorem WbuInput.step_cw {input : WbuInput} {decoder : Decoder} {serial : Serial}
    (hexStb : input.hex.stb = false) (rests : input.cw.Rests decoder) :
    (input.step serial).cw.Rests decoder := by
  change (input.cw.step input.hex.stb input.hex.valid input.hex.hexbits).Rests decoder
  rw [hexStb]
  exact rests.step _ _

theorem WbuInput.step_dc {input : WbuInput} {decoder : Decoder} {serial : Serial}
    (cwStb : input.cw.stb = false) (same : input.dc.Same decoder) :
    (input.step serial).dc.Same decoder := by
  change (input.dc.step input.cw.stb input.cw.codword).Same decoder
  rw [cwStb]
  exact same.step _

theorem Tracks.idle {input : WbuInput} {decoder : Decoder} (tracks : Tracks input decoder)
    {serial : Serial} (none : serial.char = none) : Tracks (input.step serial) decoder where
  hexStb := Serial.stb_of_none none
  cw := WbuInput.step_cw tracks.hexStb tracks.cw
  dc := WbuInput.step_dc tracks.cw.stb tracks.dc

abbrev WbuInput.words (input : WbuInput) (_ : Serial) : List Word := input.output.toList

theorem WbuInput.words_of_stb {input : WbuInput} (serial : Serial) (stb : input.dc.stb = false) :
    input.words serial = [] := by
  simp [WbuInput.words, WbuInput.output, stb]

/-- While nothing comes in, nothing goes out. -/
theorem Tracks.idles {input : WbuInput} {decoder : Decoder} (tracks : Tracks input decoder)
    {quiet : List Serial} (none : ∀ serial ∈ quiet, serial.char = none) :
    Tracks (clocked WbuInput.step input quiet) decoder ∧
      observed WbuInput.step WbuInput.words input quiet = [] := by
  induction quiet generalizing input with
  | nil => exact ⟨tracks, rfl⟩
  | cons serial rest ih =>
      obtain ⟨last, silent⟩ := ih (tracks.idle (none serial (.head _)))
        fun other member => none other (.tail _ member)
      refine ⟨last, ?_⟩
      rw [observed, silent, WbuInput.words_of_stb serial tracks.dc.quiet.stb]
      rfl

/-- A complete codeword stands at the output of `wbureadcw`. -/
structure Leaves (input : WbuInput) (decoder : Decoder) (word : Word) : Prop where
  hexStb : input.hex.stb = false
  cwStb : input.cw.stb = true
  codword : input.cw.codword = word
  rLen : input.cw.rLen = 0
  cwLen : input.cw.cwLen = 0
  low : input.cw.shiftreg.extractLsb' 0 30 = decoder.shiftreg.extractLsb' 0 30
  dc : input.dc.Same decoder

/-- Five edges take the codeword through `wbudecompress`. -/
theorem Leaves.passes {input : WbuInput} {decoder : Decoder} {word : Word}
    (leaves : Leaves input decoder word) {first second third fourth fifth : Serial}
    (quiet : ∀ serial ∈ [first, second, third, fourth, fifth], serial.char = none) :
    Tracks (clocked WbuInput.step input [first, second, third, fourth, fifth])
        (decoder.pass word) ∧
      observed WbuInput.step WbuInput.words input [first, second, third, fourth, fifth] =
        [decoder.expand word] := by
  have silent : ∀ serial ∈ [first, second, third, fourth, fifth], serial.stb = false :=
    fun serial member => Serial.stb_of_none (quiet serial member)
  have started : input.cw.Open := .inl ⟨leaves.rLen, leaves.cwLen⟩
  have entered : (input.step first).cw.Rests (decoder.pass word) := by
    change (input.cw.step input.hex.stb input.hex.valid input.hex.hexbits).Rests _
    rw [leaves.hexStb, started.step, leaves.cwStb]
    refine ⟨rfl, started, ⟨leaves.rLen, leaves.cwLen, leaves.low, ?_⟩, ?_, rfl⟩
    · intro absurd
      exact absurd.elim rfl
    · simp [leaves.codword, Decoder.pass]
  have indexed : ((input.step first).step second).cw.Rests (decoder.pass word) :=
    WbuInput.step_cw (silent first (by simp)) entered
  have looked : (((input.step first).step second).step third).cw.Rests (decoder.pass word) :=
    WbuInput.step_cw (silent second (by simp)) indexed
  have done : ((((input.step first).step second).step third).step fourth).cw.Rests
      (decoder.pass word) := WbuInput.step_cw (silent third (by simp)) looked
  have last : (((((input.step first).step second).step third).step fourth).step fifth).cw.Rests
      (decoder.pass word) := WbuInput.step_cw (silent fourth (by simp)) done
  obtain ⟨stb1, stb2, stb3, stb4, empty, wrAddr, table, result⟩ := leaves.dc.quiet.word word
    (input.step first).cw.codword ((input.step first).step second).cw.codword
    (((input.step first).step second).step third).cw.codword
  have unfed (state : WbuInput) (serial : Serial) (stb : state.cw.stb = false) :
      (state.step serial).dc = state.dc.step false state.cw.codword := by
    change state.dc.step state.cw.stb state.cw.codword = _
    rw [stb]
  have dc1 : (input.step first).dc = input.dc.step true word := by
    change input.dc.step input.cw.stb input.cw.codword = _
    rw [leaves.cwStb, leaves.codword]
  have dc2 := unfed (input.step first) second entered.stb
  have dc3 := unfed ((input.step first).step second) third indexed.stb
  have dc4 := unfed (((input.step first).step second).step third) fourth looked.stb
  have dc5 := unfed ((((input.step first).step second).step third).step fourth) fifth done.stb
  rw [dc1] at dc2
  rw [dc2] at dc3
  rw [dc3] at dc4
  rw [dc4] at dc5
  obtain ⟨rested, sameAddr, sameTable⟩ := Decompress.quiet_step empty
    ((((input.step first).step second).step third).step fourth).cw.codword
  refine ⟨⟨silent fifth (by simp), last, ?_⟩, ?_⟩
  · change ((((((input.step first).step second).step third).step fourth).step fifth).dc).Same _
    rw [dc5]
    refine ⟨rested, sameAddr.trans (wrAddr.trans ?_), sameTable.trans (table.trans ?_)⟩
    · simp [Decompress.step, Decoder.pass, leaves.dc.wrAddr]
    · simp [Decompress.step, Decoder.pass, leaves.dc.wrAddr, leaves.dc.table]
  · have out : (((((input.step first).step second).step third).step fourth)).words fifth =
        [decoder.expand word] := by
      simp only [WbuInput.words, WbuInput.output, dc4, stb4, if_true, result, Option.toList_some]
      simp [Decoder.expand, Decoder.pass, Decompress.step, leaves.dc.wrAddr, leaves.dc.table]
    simp only [observed]
    rw [WbuInput.words_of_stb first leaves.dc.quiet.stb,
      WbuInput.words_of_stb second (by rw [dc1]; exact stb1),
      WbuInput.words_of_stb third (by rw [dc2]; exact stb2),
      WbuInput.words_of_stb fourth (by rw [dc3]; exact stb3), out]
    rfl

theorem Serial.of_some {serial : Serial} {byte : Byte} (some : serial.char = some byte) :
    serial = ⟨true, byte⟩ := by
  obtain ⟨stb, lines⟩ := serial
  unfold Serial.char at some
  cases stb with
  | false => simp at some
  | true => simpa using some

/-- The decoder's table is not touched by a character that completes nothing. -/
theorem Decompress.Same.collect {dc : Decompress} {decoder : Decoder} (same : dc.Same decoder)
    (byte : Byte) : dc.Same (decoder.collect byte) := by
  refine ⟨same.quiet, same.wrAddr.trans ?_, same.table.trans ?_⟩ <;>
    (unfold Decoder.collect; split <;> [rfl; split <;> rfl])

/-- A character and the edge after it: either it is taken in and the circuit
rests one edge later, or a codeword stands at the output of `wbureadcw` now or
one edge later. -/
theorem Tracks.char {input : WbuInput} {decoder : Decoder} (tracks : Tracks input decoder)
    (byte : Byte) {first second : Serial} (firstNone : first.char = none)
    (secondNone : second.char = none) :
    let taken := (input.step ⟨true, byte⟩).step first
    taken.dc.stb = false ∧
    match decoder.completes byte with
    | none => Tracks (taken.step second) (decoder.collect byte)
    | some word => Leaves taken (decoder.collect byte) word ∨
        Leaves (taken.step second) (decoder.collect byte) word := by
  have rests : (input.step ⟨true, byte⟩).cw.Rests decoder :=
    WbuInput.step_cw tracks.hexStb tracks.cw
  have dc : ((input.step ⟨true, byte⟩).step first).dc.Same (decoder.collect byte) :=
    (WbuInput.step_dc rests.stb (WbuInput.step_dc tracks.cw.stb tracks.dc)).collect byte
  have silent := Serial.stb_of_none firstNone
  have cw : ((input.step ⟨true, byte⟩).step first).cw =
      (input.step ⟨true, byte⟩).cw.step true (toHex byte).1 (toHex byte).2 := rfl
  refine ⟨dc.quiet.stb, ?_⟩
  cases completes : decoder.completes byte with
  | none =>
      obtain ⟨same, isOpen, stb, lastcw⟩ := rests.same.collect rests.isOpen rests.lastcw
        rests.stb completes
      rw [← cw] at same isOpen stb lastcw
      refine ⟨Serial.stb_of_none secondNone, ?_, WbuInput.step_dc stb dc⟩
      change (((input.step ⟨true, byte⟩).step first).cw.step
        ((input.step ⟨true, byte⟩).step first).hex.stb _ _).Rests _
      rw [show ((input.step ⟨true, byte⟩).step first).hex.stb = false from silent,
        isOpen.step, stb]
      exact ⟨rfl, isOpen, ⟨same.rLen, same.cwLen, same.low, same.whole⟩, lastcw, rfl⟩
  | some word =>
      cases valid : (toHex byte).1 with
      | false =>
          left
          obtain ⟨writing, made⟩ :
              decoder.lastcw = 0b01 ∧ setSlot decoder.shiftreg 0 0x2e = word := by
            simpa [Decoder.completes, valid] using completes
          obtain ⟨same, -, stb, codword⟩ := rests.same.newline rests.lastcw rests.copied
            valid writing
          rw [← cw] at same stb codword
          have cleared : (decoder.collect byte).rLen = 0 ∧ (decoder.collect byte).cwLen = 0 := by
            simp [Decoder.collect, valid, writing]
          exact ⟨silent, stb, codword.trans made, same.rLen.trans cleared.1,
            same.cwLen.trans cleared.2, same.low, dc⟩
      | true =>
          right
          obtain ⟨quiet, stb, codword, rLen, cwLen, lastcw, low⟩ :=
            rests.same.complete rests.isOpen rests.stb rests.lastcw valid completes
              ((input.step ⟨true, byte⟩).step first).hex.valid
              ((input.step ⟨true, byte⟩).step first).hex.hexbits
          rw [← cw] at quiet stb codword rLen cwLen lastcw low
          have after : (((input.step ⟨true, byte⟩).step first).step second).cw =
              ((input.step ⟨true, byte⟩).step first).cw.step false
                ((input.step ⟨true, byte⟩).step first).hex.valid
                ((input.step ⟨true, byte⟩).step first).hex.hexbits := by
            change ((input.step ⟨true, byte⟩).step first).cw.step
              ((input.step ⟨true, byte⟩).step first).hex.stb _ _ = _
            rw [show ((input.step ⟨true, byte⟩).step first).hex.stb = false from silent]
          rw [← after] at stb codword rLen cwLen lastcw low
          exact ⟨Serial.stb_of_none secondNone, stb, codword, rLen, cwLen, low,
            WbuInput.step_dc quiet dc⟩

/-- The input side follows the decoder character by character. -/
theorem wbuinput_settles :
    Settling Serial.char 7 WbuInput.step WbuInput.words Tracks Decoder.feed Decoder.emit where
  idle input decoder serial tracks none :=
    ⟨tracks.idle none, WbuInput.words_of_stb serial tracks.dc.quiet.stb⟩
  item input decoder serial byte quiet tracks carried size none := by
    obtain rfl := Serial.of_some carried
    match quiet, size with
    | [first, second, third, fourth, fifth, sixth, seventh], _ =>
    obtain ⟨stb, taken⟩ := tracks.char byte (none first (by simp)) (none second (by simp))
    have late : ∀ other ∈ [third, fourth, fifth, sixth, seventh], other.char = Option.none :=
      fun other member => none other (.tail _ (.tail _ member))
    have early : ∀ other ∈ [second, third, fourth, fifth, sixth], other.char = Option.none := by
      intro other member
      refine none other (.tail _ ?_)
      have : [second, third, fourth, fifth, sixth, seventh] =
        [second, third, fourth, fifth, sixth] ++ [seventh] := rfl
      rw [this]
      exact List.mem_append_left _ member
    have dc1 : (input.step ⟨true, byte⟩).dc.Same decoder :=
      WbuInput.step_dc tracks.cw.stb tracks.dc
    have quiet0 := WbuInput.words_of_stb ⟨true, byte⟩ tracks.dc.quiet.stb
    have quiet1 := WbuInput.words_of_stb first dc1.quiet.stb
    have quiet2 := WbuInput.words_of_stb second stb
    unfold Decoder.feed Decoder.emit
    cases completes : decoder.completes byte with
    | none =>
        rw [completes] at taken
        obtain ⟨last, silent⟩ := taken.idles late
        rw [observed, observed, observed, quiet0, quiet1, quiet2, List.nil_append,
          List.nil_append, List.nil_append, clocked_cons, clocked_cons, clocked_cons]
        exact ⟨last, silent⟩
    | some word =>
        rw [completes] at taken
        rcases taken with leaves | leaves
        · obtain ⟨last, words⟩ := leaves.passes early
          have split : [second, third, fourth, fifth, sixth, seventh] =
            [second, third, fourth, fifth, sixth] ++ [seventh] := rfl
          rw [observed, observed, quiet0, quiet1, List.nil_append, List.nil_append, clocked_cons,
            clocked_cons, split, clocked_append, observed_append, words, observed, observed,
            WbuInput.words_of_stb seventh last.dc.quiet.stb, clocked_cons, clocked_nil]
          exact ⟨last.idle (none seventh (by simp)), rfl⟩
        · obtain ⟨last, words⟩ := leaves.passes late
          rw [observed, observed, observed, quiet0, quiet1, quiet2, List.nil_append,
            List.nil_append, List.nil_append, clocked_cons, clocked_cons, clocked_cons]
          exact ⟨last, words⟩

/-! ### Whole codewords -/

theorem slot_setSlot (word : Word) (value : Six) {index other : Nat} (inside : index < 6)
    (otherInside : other < 6) :
    slot (setSlot word index value) other = if index = other then value else slot word other := by
  interval_cases index <;> interval_cases other <;>
    (simp only [slot, setSlot]; ext position bound; simp; grind)

namespace Decoder

/-- The character that completes a codeword. -/
theorem completes_last {decoder : Decoder} {char : Six} {len : BitVec 3}
    (expected : (if decoder.cwLen = 0#3 then codwordLen char else decoder.cwLen) = len)
    (last : decoder.rLen.toNat + 1 = len.toNat) : decoder.completes (charenc char) =
      some (setSlot decoder.shiftreg decoder.rLen.toNat char) := by
  have full : decoder.rLen + 1#3 = len := by
    apply BitVec.eq_of_toNat_eq
    simp only [BitVec.toNat_add, BitVec.toNat_ofNat]
    omega
  simp [Decoder.completes, expected, full]

/-- A character before it. -/
theorem feed_partway {decoder : Decoder} {char : Six} {len : BitVec 3}
    (expected : (if decoder.cwLen = 0#3 then codwordLen char else decoder.cwLen) = len)
    (more : decoder.rLen.toNat + 1 < len.toNat) : decoder.completes (charenc char) = none ∧
      (decoder.rLen + 1#3).toNat = decoder.rLen.toNat + 1 ∧
      decoder.feed (charenc char) = { decoder with
        rLen := decoder.rLen + 1#3
        cwLen := len
        shiftreg := setSlot decoder.shiftreg decoder.rLen.toNat char } := by
  have counted : (decoder.rLen + 1#3).toNat = decoder.rLen.toNat + 1 := by
    simp only [BitVec.toNat_add, BitVec.toNat_ofNat]
    omega
  have partway : decoder.rLen + 1#3 ≠ len := by
    intro full
    rw [← full, counted] at more
    omega
  have completes : decoder.completes (charenc char) = none := by
    simp [Decoder.completes, expected, partway]
  exact ⟨completes, counted, by simp [feed, completes, collect, expected]⟩

/-- Characters up to the end of a codeword of length `len`. -/
theorem feed_chars (char : Six) (rest : List Six) (decoder : Decoder) (len : BitVec 3)
    (expected : (if decoder.cwLen = 0#3 then codwordLen char else decoder.cwLen) = len)
    (bound : len.toNat ≤ 6) (remaining : decoder.rLen.toNat + (rest.length + 1) = len.toNat) :
    ∃ (word : Word) (held : Decoder),
      clocked feed decoder ((char :: rest).map charenc) = held.pass word ∧
      observed feed emit decoder ((char :: rest).map charenc) = [held.expand word] ∧
      held.wrAddr = decoder.wrAddr ∧ held.compressionTbl = decoder.compressionTbl ∧
      (∀ index < decoder.rLen.toNat, slot word index = slot decoder.shiftreg index) ∧
      ∀ (index : Nat) (inside : index < (char :: rest).length),
        slot word (decoder.rLen.toNat + index) = (char :: rest)[index] := by
  induction rest generalizing char decoder with
  | nil =>
      simp only [List.length_nil] at remaining
      have completes := completes_last expected remaining
      refine ⟨setSlot decoder.shiftreg decoder.rLen.toNat char, decoder.collect (charenc char),
        ?_, ?_, ?_, ?_, ?_, ?_⟩
      · simp [feed, completes]
      · simp [emit, completes, observed]
      · simp [collect]
      · simp [collect]
      · intro index before
        rw [slot_setSlot _ _ (by omega) (by omega), if_neg (by omega)]
      · intro index inside
        simp only [List.length_cons, List.length_nil] at inside
        obtain rfl : index = 0 := by omega
        rw [Nat.add_zero, slot_setSlot _ _ (by omega) (by omega), if_pos rfl]
        rfl
  | cons next rest ih =>
      simp only [List.length_cons] at remaining
      have named : len ≠ 0#3 := by
        intro zero
        rw [zero] at remaining
        simp at remaining
      obtain ⟨completes, counted, fed⟩ := feed_partway expected (by omega)
      obtain ⟨word, held, last, words, wrAddr, table, before, after⟩ :=
        ih next (decoder.feed (charenc char)) (by rw [fed, if_neg named])
          (by rw [fed]; dsimp only; omega)
      rw [fed] at wrAddr table before after
      dsimp only at wrAddr table before after
      rw [counted] at before after
      refine ⟨word, held, last, ?_, wrAddr, table, ?_, ?_⟩
      · rw [List.map_cons, observed, words]
        simp [emit, completes]
      · intro index earlier
        rw [before index (by omega), slot_setSlot _ _ (by omega) (by omega), if_neg (by omega)]
      · intro index inside
        cases index with
        | zero =>
            rw [Nat.add_zero, before _ (by omega), slot_setSlot _ _ (by omega) (by omega),
              if_pos rfl]
            rfl
        | succ index =>
            have shifted := after index (by simpa using inside)
            rw [Nat.add_assoc, Nat.add_comm 1 index] at shifted
            exact shifted

/-- A codeword: characters as many as the first announces. They yield one word
holding them, unpacked against the table as it was. -/
theorem feed_codeword (decoder : Decoder) (empty : decoder.rLen = 0) (none : decoder.cwLen = 0)
    (first : Six) (rest : List Six) (size : (codwordLen first).toNat = rest.length + 1) :
    ∃ (word : Word) (held : Decoder),
      clocked feed decoder ((first :: rest).map charenc) = held.pass word ∧
      observed feed emit decoder ((first :: rest).map charenc) = [held.expand word] ∧
      held.wrAddr = decoder.wrAddr ∧ held.compressionTbl = decoder.compressionTbl ∧
      ∀ (index : Nat) (inside : index < (first :: rest).length),
        slot word index = (first :: rest)[index] := by
  obtain ⟨-, bound⟩ := codwordLen_pos first
  obtain ⟨word, held, last, words, wrAddr, table, -, slots⟩ :=
    feed_chars first rest decoder (codwordLen first) (if_pos none) bound
      (by rw [empty, size]; exact Nat.zero_add _)
  refine ⟨word, held, last, words, wrAddr, table, fun index inside => ?_⟩
  have found := slots index inside
  rw [empty] at found
  simpa using found

end Decoder

/-! ### From reset -/

/-- The input side after reset. -/
def WbuInput.reset : WbuInput where
  hex := ⟨false, false, 0⟩
  cw := ⟨0, 0, 0, 0, false, 0⟩
  dc := ⟨0, fun _ => 0, 0, 0, 0, 0, 0, 0, false, 0⟩

def Decoder.reset : Decoder := ⟨0, 0, 0, 0, 0, fun _ => 0⟩

theorem reset_tracks : Tracks WbuInput.reset Decoder.reset :=
  ⟨rfl, ⟨rfl, .inl ⟨rfl, rfl⟩, ⟨rfl, rfl, rfl, fun _ => rfl⟩, rfl, rfl⟩, ⟨⟨rfl, rfl⟩, rfl, rfl⟩⟩

/-- Characters eight clocks apart. -/
def paced (bytes : List Byte) : List Serial :=
  bytes.flatMap fun byte => ⟨true, byte⟩ :: List.replicate 7 ⟨false, 0⟩

theorem paced_spaced (bytes : List Byte) : Spaced Serial.char 7 (paced bytes) bytes := by
  induction bytes with
  | nil => exact .nil
  | cons byte rest ih =>
      refine .item rfl List.length_replicate ?_ ih
      intro clock member
      rw [(List.mem_replicate.mp member).2]
      rfl

end ZipVersa.DebugBus
