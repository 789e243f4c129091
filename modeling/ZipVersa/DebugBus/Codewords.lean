import ZipVersa.DebugBus.Decoder
import ZipVersa.DebugBus.Exec

/-! What each kind of codeword means to `wbuexec` after `wbudecompress`, in
terms of the six-bit values it was sent as. -/

set_option autoImplicit false

namespace ZipVersa.DebugBus

open Lib

/-! ### Fields of a word by characters -/

section Fields

variable (word : Word)

theorem extract_30_6 : word.extractLsb' 30 6 = slot word 0 := rfl

theorem extract_24_6 : word.extractLsb' 24 6 = slot word 1 := rfl

theorem extract_33_3 : word.extractLsb' 33 3 = (slot word 0).extractLsb' 3 3 := by
  ext position inside
  simp [slot]
  grind

theorem extract_34_2 : word.extractLsb' 34 2 = (slot word 0).extractLsb' 4 2 := by
  ext position inside
  simp [slot]
  grind

theorem extract_35_1 : word.extractLsb' 35 1 = (slot word 0).extractLsb' 5 1 := by
  ext position inside
  simp [slot]
  grind

theorem extract_30_1 : word.extractLsb' 30 1 = (slot word 0).extractLsb' 0 1 := by
  ext position inside
  simp [slot]
  grind

theorem extract_30_3 : word.extractLsb' 30 3 = (slot word 0).extractLsb' 0 3 := by
  ext position inside
  simp [slot]
  grind

theorem extract_31_2 : word.extractLsb' 31 2 = (slot word 0).extractLsb' 1 2 := by
  ext position inside
  simp [slot]
  grind

theorem extract_31_3 : word.extractLsb' 31 3 = (slot word 0).extractLsb' 1 3 := by
  ext position inside
  simp [slot]
  grind

theorem extract_18_12 : word.extractLsb' 18 12 = slot word 1 ++ slot word 2 := by
  ext position inside
  simp [slot]
  grind

theorem extract_12_18 : word.extractLsb' 12 18 = slot word 1 ++ slot word 2 ++ slot word 3 := by
  ext position inside
  simp [slot]
  grind

theorem extract_6_24 :
    word.extractLsb' 6 24 = slot word 1 ++ slot word 2 ++ slot word 3 ++ slot word 4 := by
  ext position inside
  simp [slot]
  grind

theorem extract_0_30 : word.extractLsb' 0 30 =
    slot word 1 ++ slot word 2 ++ slot word 3 ++ slot word 4 ++ slot word 5 := by
  ext position inside
  simp [slot]
  grind

end Fields

/-! ### Words as `wbudecompress` builds them -/

theorem decode_setAddress (addr : BitVec 32) :
    decode ((0 : BitVec 4) ++ addr) = .setAddress addr := by
  have high : ((0 : BitVec 4) ++ addr).extractLsb' 32 4 = 0b0000 := by
    ext position inside
    simp
    grind
  have low : ((0 : BitVec 4) ++ addr).extractLsb' 0 32 = addr := by
    ext position inside
    simp
    grind
  rw [decode, if_pos high, low]

/-- `{ code, value[31:30], flag, value[29:0] }`. -/
def flagged (code : BitVec 3) (flag : BitVec 1) (value : BitVec 32) : Word :=
  code ++ value.extractLsb' 30 2 ++ flag ++ value.extractLsb' 0 30

theorem flagged_getLsbD (code : BitVec 3) (flag : BitVec 1) (value : BitVec 32)
    (position : Nat) :
    (flagged code flag value).getLsbD position =
      if position < 30 then value.getLsbD position
      else if position < 31 then flag.getLsbD (position - 30)
      else if position < 33 then value.getLsbD (position - 1)
      else code.getLsbD (position - 33) := by
  change (code ++ value.extractLsb' 30 2 ++ flag ++ value.extractLsb' 0 30).getLsbD position = _
  rw [BitVec.getLsbD_append, BitVec.getLsbD_append, BitVec.getLsbD_append]
  simp [BitVec.getLsbD_extractLsb']
  grind

theorem flagged_code (code : BitVec 3) (flag : BitVec 1) (value : BitVec 32) :
    (flagged code flag value).extractLsb' 33 3 = code := by
  apply BitVec.eq_of_getLsbD_eq
  intro position inside
  simp only [BitVec.getLsbD_extractLsb', flagged_getLsbD]
  grind

theorem flagged_codData (code : BitVec 3) (flag : BitVec 1) (value : BitVec 32) :
    codData (flagged code flag value) = value := by
  apply BitVec.eq_of_getLsbD_eq
  intro position inside
  unfold codData
  erw [BitVec.getLsbD_append]
  simp only [BitVec.getLsbD_extractLsb', flagged_getLsbD]
  grind

theorem flagged_flag (code : BitVec 3) (flag : BitVec 1) (value : BitVec 32) :
    (flagged code flag value).getLsbD 30 = flag.getLsbD 0 := by
  rw [flagged_getLsbD]
  rfl

theorem extract_32_4_ne (word : Word) (code : word.extractLsb' 33 3 ≠ 0) :
    word.extractLsb' 32 4 ≠ 0b0000 := by
  intro zero
  apply code
  ext position inside
  have bit := congrArg (fun bits => bits.getLsbD (position + 1)) zero
  simpa [show position + 1 < 4 by omega, show 32 + (position + 1) = 33 + position by omega]
    using bit

theorem extract_34_2_eq (word : Word) :
    word.extractLsb' 34 2 = (word.extractLsb' 33 3).extractLsb' 1 2 := by
  ext position inside
  simp
  grind

theorem extract_35_1_eq (word : Word) :
    word.extractLsb' 35 1 = (word.extractLsb' 33 3).extractLsb' 2 1 := by
  ext position inside
  simp
  grind

/-- The top bit tells reads and the end of writes from the rest. -/
theorem high_of_read {word : Word} {inc : Bool} {len : BitVec 10}
    (read : decode word = .read inc len) : word.extractLsb' 35 1 = 1#1 := by
  have top : word.extractLsb' 35 1 = (word.extractLsb' 34 2).extractLsb' 1 1 := by
    ext position inside
    simp
    grind
  rw [top, (decode_eq_read read).1]
  decide

theorem high_of_endOfWrites {word : Word} (ends : decode word = .endOfWrites) :
    word.extractLsb' 35 1 = 1#1 := by
  rw [extract_35_1, ← extract_30_6, decode_eq_endOfWrites ends]
  decide

theorem decode_moveAddress (flag : BitVec 1) (offset : BitVec 32) :
    decode (flagged 0b001 flag offset) = .moveAddress offset := by
  have code := flagged_code 0b001 flag offset
  rw [decode, if_neg (extract_32_4_ne _ (by rw [code]; decide)), if_pos code, flagged_codData]

theorem decode_write (flag : BitVec 1) (data : BitVec 32) :
    decode (flagged 0b011 flag data) = .write (flag.getLsbD 0) data := by
  have code := flagged_code 0b011 flag data
  rw [decode, if_neg (extract_32_4_ne _ (by rw [code]; decide)), if_neg (by rw [code]; decide),
    if_pos (by rw [extract_34_2_eq, code]; decide), flagged_codData, flagged_flag]

/-- `{ 5'b11000, flag, 20'h00, len }`. -/
def readWord (flag : BitVec 1) (len : BitVec 10) : Word :=
  (0b11000 : BitVec 5) ++ flag ++ (0 : BitVec 20) ++ len

theorem readWord_getLsbD (flag : BitVec 1) (len : BitVec 10) (position : Nat) :
    (readWord flag len).getLsbD position =
      if position < 10 then len.getLsbD position
      else if position < 30 then false
      else if position < 31 then flag.getLsbD (position - 30)
      else (0b11000 : BitVec 5).getLsbD (position - 31) := by
  change ((0b11000 : BitVec 5) ++ flag ++ (0 : BitVec 20) ++ len).getLsbD position = _
  rw [BitVec.getLsbD_append, BitVec.getLsbD_append, BitVec.getLsbD_append]
  simp
  grind

theorem readWord_code (flag : BitVec 1) (len : BitVec 10) :
    (readWord flag len).extractLsb' 33 3 = 0b110 := by
  apply BitVec.eq_of_getLsbD_eq
  intro position inside
  simp only [BitVec.getLsbD_extractLsb', readWord_getLsbD, inside]
  interval_cases position <;> rfl

theorem decode_read (flag : BitVec 1) (len : BitVec 10) :
    decode (readWord flag len) = .read (flag.getLsbD 0) len := by
  have code := readWord_code flag len
  have low : (readWord flag len).extractLsb' 0 10 = len := by
    apply BitVec.eq_of_getLsbD_eq
    intro position inside
    simp [readWord_getLsbD, inside]
  have bit : (readWord flag len).getLsbD 30 = flag.getLsbD 0 := by
    rw [readWord_getLsbD]
    rfl
  rw [decode, if_neg (extract_32_4_ne _ (by rw [code]; decide)), if_neg (by rw [code]; decide),
    if_neg (by rw [extract_34_2_eq, code]; decide), if_pos (by rw [extract_34_2_eq, code]; decide),
    low, bit]

theorem decode_endOfWrites {word : Word} (code : slot word 0 = 0x2e) :
    decode word = .endOfWrites := by
  have three : word.extractLsb' 33 3 = 0b101 := by rw [extract_33_3, code]; decide
  rw [decode, if_neg (extract_32_4_ne _ (by rw [three]; decide)), if_neg (by rw [three]; decide),
    if_neg (by rw [extract_34_2_eq, three]; decide),
    if_neg (by rw [extract_34_2_eq, three]; decide), if_pos (by rw [extract_30_6, code])]

/-! ### `wbudecompress` by kind of codeword -/

section Unpack

variable {word : Word} {rAddr : BitVec 25} {cword : BitVec 32} {rdLen : BitVec 10}

theorem not_eow_of_code {code : BitVec 3} (found : (slot word 0).extractLsb' 3 3 = code)
    (other : code ≠ 0b101) : word.extractLsb' 30 6 ≠ 0b101110 := by
  intro eow
  apply other
  rw [← found, ← extract_30_6, eow]
  decide

theorem unpack_absolute (code : (slot word 0).extractLsb' 3 3 = 0b001)
    (absolute : (slot word 0).extractLsb' 0 1 = 0) :
    Decompress.unpack word rAddr cword rdLen = (0 : BitVec 4) ++ rAddr.signExtend 32 := by
  rw [Decompress.unpack, if_neg (not_eow_of_code code (by decide)),
    if_pos ⟨by rw [extract_33_3, code], by rw [extract_30_1, absolute]⟩]

theorem unpack_relative (code : (slot word 0).extractLsb' 3 3 = 0b001)
    (relative : (slot word 0).extractLsb' 0 1 = 1) :
    Decompress.unpack word rAddr cword rdLen = flagged 0b001 1 (rAddr.signExtend 32) := by
  rw [Decompress.unpack, if_neg (not_eow_of_code code (by decide)),
    if_neg (fun both => by rw [extract_30_1, relative] at both; exact absurd both.2 (by decide)),
    if_pos (by rw [extract_33_3, code])]
  rfl

/-- Past the address forms. -/
theorem unpack_of_not_address {code : BitVec 3} (three : word.extractLsb' 33 3 = code)
    (notEow : word.extractLsb' 30 6 ≠ 0b101110) (other : code ≠ 0b001) :
    Decompress.unpack word rAddr cword rdLen =
      if code = 0b010 then flagged 0b011 ((slot word 0).extractLsb' 0 1) cword
      else if code.extractLsb' 2 1 = 1 then readWord ((slot word 0).extractLsb' 0 1) rdLen
      else word := by
  rw [Decompress.unpack, if_neg notEow, if_neg (fun both => other (three ▸ both.1)),
    if_neg (fun same => other (three ▸ same)), extract_35_1_eq, three, extract_30_1]
  rfl

theorem unpack_table (code : (slot word 0).extractLsb' 3 3 = 0b010) :
    Decompress.unpack word rAddr cword rdLen =
      flagged 0b011 ((slot word 0).extractLsb' 0 1) cword := by
  rw [unpack_of_not_address (extract_33_3 word) (not_eow_of_code code (by decide))
    (by rw [code]; decide), if_pos code]

theorem unpack_read (code : (slot word 0).extractLsb' 5 1 = 1) (notEow : slot word 0 ≠ 0x2e) :
    Decompress.unpack word rAddr cword rdLen =
      readWord ((slot word 0).extractLsb' 0 1) rdLen := by
  have high : ((slot word 0).extractLsb' 3 3).extractLsb' 2 1 = 1 := by
    rw [← extract_33_3, ← extract_35_1_eq, extract_35_1, code]
  have other : ∀ value : BitVec 3, value.extractLsb' 2 1 = 0 →
      (slot word 0).extractLsb' 3 3 ≠ value := by
    intro value zero same
    rw [same, zero] at high
    cases high
  rw [unpack_of_not_address (extract_33_3 word) notEow (other _ (by decide)),
    if_neg (other _ (by decide)), if_pos high]

/-- Codewords that carry everything themselves pass unchanged. -/
theorem unpack_whole (code : (slot word 0).extractLsb' 3 3 = 0b011 ∨
    (slot word 0).extractLsb' 3 3 = 0b000 ∨ slot word 0 = 0x2e) :
    Decompress.unpack word rAddr cword rdLen = word := by
  rcases code with raw | address | eow
  · rw [unpack_of_not_address (extract_33_3 word) (not_eow_of_code raw (by decide))
      (by rw [raw]; decide), raw]
    rfl
  · rw [unpack_of_not_address (extract_33_3 word) (not_eow_of_code address (by decide))
      (by rw [address]; decide), address]
    rfl
  · rw [Decompress.unpack, extract_30_6, if_pos eow]

/-- No write by reference is left. -/
theorem unpack_plain : (Decompress.unpack word rAddr cword rdLen).extractLsb' 33 3 ≠ 0b010 := by
  by_cases eow : word.extractLsb' 30 6 = 0b101110
  · rw [Decompress.unpack, if_pos eow, extract_33_3, ← extract_30_6, eow]
    decide
  by_cases address : word.extractLsb' 33 3 = 0b001
  · rw [Decompress.unpack, if_neg eow]
    split
    · intro code
      have zero : ((0 : BitVec 4) ++ rAddr.signExtend 32).extractLsb' 33 3 = 0 := by
        ext position inside
        simp
        grind
      rw [zero] at code
      cases code
    · change (flagged 0b001 1 (rAddr.signExtend 32)).extractLsb' 33 3 ≠ 0b010
      rw [flagged_code]
      decide
  rw [unpack_of_not_address rfl eow address]
  split
  · rw [flagged_code]
    decide
  · next other =>
      split
      · rw [readWord_code]
        decide
      · exact other

end Unpack

/-! ### Feeding codewords -/

theorem Decoder.emit_plain (decoder : Decoder) (byte : Byte) :
    ∀ word ∈ decoder.emit byte, word.extractLsb' 33 3 ≠ 0b010 := by
  intro word member
  unfold Decoder.emit at member
  split at member
  · rw [List.mem_singleton.mp member]
    exact unpack_plain
  · cases member

/-- Between two codewords. -/
structure Decoder.Ready (decoder : Decoder) : Prop where
  rLen : decoder.rLen = 0
  cwLen : decoder.cwLen = 0

/-- A codeword that is not a raw write leaves the table as it was, but for the
entry the next raw write will fill. -/
structure Decoder.Kept (before after : Decoder) : Prop where
  ready : after.Ready
  wrAddr : after.wrAddr = before.wrAddr
  table : ∀ index, index ≠ before.wrAddr →
    after.compressionTbl index = before.compressionTbl index

/-- The characters are one codeword, its words' meaning is `command`, and it
leaves `lastcw` at `last`. -/
structure Decoder.Spells (decoder : Decoder) (chars : List Six) (command : Command)
    (last : BitVec 2) (after : Decoder) : Prop where
  fed : clocked Decoder.feed decoder (chars.map charenc) = after
  said : (observed Decoder.feed Decoder.emit decoder (chars.map charenc)).map decode = [command]
  lastcw : after.lastcw = last

/-- What is heard of a stretch of characters. -/
structure Decoder.Hears (decoder : Decoder) (bytes : List Byte) (commands : List Command)
    (after : Decoder) : Prop where
  fed : clocked Decoder.feed decoder bytes = after
  heard : (observed Decoder.feed Decoder.emit decoder bytes).map decode = commands

theorem Decoder.Hears.nil (decoder : Decoder) : decoder.Hears [] [] decoder := ⟨rfl, rfl⟩

theorem Decoder.Hears.append {decoder between after : Decoder} {first second : List Byte}
    {before later : List Command} (start : decoder.Hears first before between)
    (rest : between.Hears second later after) :
    decoder.Hears (first ++ second) (before ++ later) after := by
  refine ⟨?_, ?_⟩
  · rw [clocked_append, start.fed, rest.fed]
  · rw [observed_append, List.map_append, start.heard, start.fed, rest.heard]

theorem Decoder.Spells.hears {decoder after : Decoder} {chars : List Six} {command : Command}
    {last : BitVec 2} (spells : decoder.Spells chars command last after) :
    decoder.Hears (chars.map charenc) [command] after := ⟨spells.fed, spells.said⟩

theorem Decoder.pass_ready (held : Decoder) (word : Word) : (held.pass word).Ready := ⟨rfl, rfl⟩

/-- Codewords other than raw writes. -/
theorem Decoder.Ready.spells {decoder : Decoder} (ready : decoder.Ready) (first : Six)
    (rest : List Six) (size : (codwordLen first).toNat = rest.length + 1)
    (notRaw : first.extractLsb' 3 3 ≠ 0b011) (command : Command)
    (meaning : ∀ (word : Word) (held : Decoder), held.wrAddr = decoder.wrAddr →
      held.compressionTbl = decoder.compressionTbl →
      (∀ (index : Nat) (inside : index < (first :: rest).length),
        slot word index = (first :: rest)[index]) →
      decode (held.expand word) = command) :
    ∃ after, decoder.Spells (first :: rest) command (first.extractLsb' 4 2) after ∧
      decoder.Kept after := by
  obtain ⟨word, held, fed, words, wrAddr, table, slots⟩ :=
    decoder.feed_codeword ready.rLen ready.cwLen first rest size
  have head : slot word 0 = first := slots 0 (by simp)
  refine ⟨held.pass word, ⟨fed, ?_, ?_⟩, ⟨held.pass_ready word, ?_, ?_⟩⟩
  · rw [words, List.map_singleton, meaning word held wrAddr table slots]
  · change word.extractLsb' 34 2 = _
    rw [extract_34_2, head]
  · change (if word.extractLsb' 33 3 = 0b011 then held.wrAddr + 1 else held.wrAddr) = _
    rw [if_neg (by rw [extract_33_3, head]; exact notRaw), wrAddr]
  · intro index other
    change Function.update held.compressionTbl held.wrAddr _ index = _
    rw [wrAddr, Function.update_of_ne other, table]

end ZipVersa.DebugBus
