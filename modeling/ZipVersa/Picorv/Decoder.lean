import ZipVersa.Lib.Slices
import ZipVersa.Picorv.PcpiMul

/-! The instruction decoder of the core for RV32I, and the formats that the
instructions are written in. `COMPRESSED_ISA` is set, but what it adds does not
touch the words of four bytes, which are those with their two lowest bits set. -/

set_option autoImplicit false

namespace ZipVersa.Picorv

open Lib

inductive Instr where
  | lui | auipc | jal | jalr
  | beq | bne | blt | bge | bltu | bgeu
  | lb | lh | lw | lbu | lhu | sb | sh | sw
  | addi | slti | sltiu | xori | ori | andi | slli | srli | srai
  | add | sub | sll | slt | sltu | xor | srl | sra | or | and
  deriving DecidableEq

/-- `mem_rdata_latched` with an instruction that is not compressed. -/
structure FullWord where
  bits : BitVec 32
  full : bits.extractLsb' 0 2 = 0b11#2

/-! ### The registers of the decoder behind a word -/

section Decoder

variable (insn : BitVec 32)

def isBeqBneBltBgeBltuBgeu : Bool := insn.extractLsb' 0 7 == 0b1100011

def isLbLhLwLbuLhu : Bool := insn.extractLsb' 0 7 == 0b0000011

def isSbShSw : Bool := insn.extractLsb' 0 7 == 0b0100011

def isAluRegImm : Bool := insn.extractLsb' 0 7 == 0b0010011

def isAluRegReg : Bool := insn.extractLsb' 0 7 == 0b0110011

/-- The `instr_` registers. -/
def Instr.flag : Instr → Bool
  | .lui => insn.extractLsb' 0 7 == 0b0110111
  | .auipc => insn.extractLsb' 0 7 == 0b0010111
  | .jal => insn.extractLsb' 0 7 == 0b1101111
  | .jalr => insn.extractLsb' 0 7 == 0b1100111 && insn.extractLsb' 12 3 == 0b000
  | .beq => isBeqBneBltBgeBltuBgeu insn && insn.extractLsb' 12 3 == 0b000
  | .bne => isBeqBneBltBgeBltuBgeu insn && insn.extractLsb' 12 3 == 0b001
  | .blt => isBeqBneBltBgeBltuBgeu insn && insn.extractLsb' 12 3 == 0b100
  | .bge => isBeqBneBltBgeBltuBgeu insn && insn.extractLsb' 12 3 == 0b101
  | .bltu => isBeqBneBltBgeBltuBgeu insn && insn.extractLsb' 12 3 == 0b110
  | .bgeu => isBeqBneBltBgeBltuBgeu insn && insn.extractLsb' 12 3 == 0b111
  | .lb => isLbLhLwLbuLhu insn && insn.extractLsb' 12 3 == 0b000
  | .lh => isLbLhLwLbuLhu insn && insn.extractLsb' 12 3 == 0b001
  | .lw => isLbLhLwLbuLhu insn && insn.extractLsb' 12 3 == 0b010
  | .lbu => isLbLhLwLbuLhu insn && insn.extractLsb' 12 3 == 0b100
  | .lhu => isLbLhLwLbuLhu insn && insn.extractLsb' 12 3 == 0b101
  | .sb => isSbShSw insn && insn.extractLsb' 12 3 == 0b000
  | .sh => isSbShSw insn && insn.extractLsb' 12 3 == 0b001
  | .sw => isSbShSw insn && insn.extractLsb' 12 3 == 0b010
  | .addi => isAluRegImm insn && insn.extractLsb' 12 3 == 0b000
  | .slti => isAluRegImm insn && insn.extractLsb' 12 3 == 0b010
  | .sltiu => isAluRegImm insn && insn.extractLsb' 12 3 == 0b011
  | .xori => isAluRegImm insn && insn.extractLsb' 12 3 == 0b100
  | .ori => isAluRegImm insn && insn.extractLsb' 12 3 == 0b110
  | .andi => isAluRegImm insn && insn.extractLsb' 12 3 == 0b111
  | .slli =>
      isAluRegImm insn && insn.extractLsb' 12 3 == 0b001 && insn.extractLsb' 25 7 == 0b0000000
  | .srli =>
      isAluRegImm insn && insn.extractLsb' 12 3 == 0b101 && insn.extractLsb' 25 7 == 0b0000000
  | .srai =>
      isAluRegImm insn && insn.extractLsb' 12 3 == 0b101 && insn.extractLsb' 25 7 == 0b0100000
  | .add =>
      isAluRegReg insn && insn.extractLsb' 12 3 == 0b000 && insn.extractLsb' 25 7 == 0b0000000
  | .sub =>
      isAluRegReg insn && insn.extractLsb' 12 3 == 0b000 && insn.extractLsb' 25 7 == 0b0100000
  | .sll =>
      isAluRegReg insn && insn.extractLsb' 12 3 == 0b001 && insn.extractLsb' 25 7 == 0b0000000
  | .slt =>
      isAluRegReg insn && insn.extractLsb' 12 3 == 0b010 && insn.extractLsb' 25 7 == 0b0000000
  | .sltu =>
      isAluRegReg insn && insn.extractLsb' 12 3 == 0b011 && insn.extractLsb' 25 7 == 0b0000000
  | .xor =>
      isAluRegReg insn && insn.extractLsb' 12 3 == 0b100 && insn.extractLsb' 25 7 == 0b0000000
  | .srl =>
      isAluRegReg insn && insn.extractLsb' 12 3 == 0b101 && insn.extractLsb' 25 7 == 0b0000000
  | .sra =>
      isAluRegReg insn && insn.extractLsb' 12 3 == 0b101 && insn.extractLsb' 25 7 == 0b0100000
  | .or =>
      isAluRegReg insn && insn.extractLsb' 12 3 == 0b110 && insn.extractLsb' 25 7 == 0b0000000
  | .and =>
      isAluRegReg insn && insn.extractLsb' 12 3 == 0b111 && insn.extractLsb' 25 7 == 0b0000000

/-- `decoded_imm_j`, whose bits are assigned out of their order. -/
def decodedImmJ : BitVec 32 :=
  let signed := (insn.extractLsb' 12 20 ++ 0#1).signExtend 32
  signed.extractLsb' 20 12 ++ signed.extractLsb' 1 8 ++ signed.extractLsb' 9 1 ++
    signed.extractLsb' 10 10 ++ signed.extractLsb' 0 1

/-- `decoded_imm`, where it is not left open. -/
def decodedImm : Option (BitVec 32) :=
  if Instr.jal.flag insn then some (decodedImmJ insn)
  else if Instr.lui.flag insn || Instr.auipc.flag insn then
    some (insn.extractLsb' 12 20 ++ 0#12)
  else if Instr.jalr.flag insn || isLbLhLwLbuLhu insn || isAluRegImm insn then
    some ((insn.extractLsb' 20 12).signExtend 32)
  else if isBeqBneBltBgeBltuBgeu insn then
    some ((insn.extractLsb' 31 1 ++ insn.extractLsb' 7 1 ++ insn.extractLsb' 25 6 ++
      insn.extractLsb' 8 4 ++ 0#1).signExtend 32)
  else if isSbShSw insn then
    some ((insn.extractLsb' 25 7 ++ insn.extractLsb' 7 5).signExtend 32)
  else none

/-- `decoded_rd`, `decoded_rs1` and `decoded_rs2`, the amount of a shift. -/
structure Operands where
  rd : BitVec 5
  rs1 : BitVec 5
  rs2 : BitVec 5
  imm : BitVec 32

def decoded : Operands :=
  ⟨insn.extractLsb' 7 5, insn.extractLsb' 15 5, insn.extractLsb' 20 5, (decodedImm insn).getD 0⟩

end Decoder

/-! ### The formats of the instructions -/

/-- With what tells apart the instructions of one opcode. -/
inductive Format where
  | r (funct7 : BitVec 7) (funct3 : BitVec 3)
  | i (funct3 : BitVec 3)
  | s (funct3 : BitVec 3)
  | b (funct3 : BitVec 3)
  | u
  | j
  deriving DecidableEq

def Instr.opcode : Instr → BitVec 7
  | .lui => 0x37
  | .auipc => 0x17
  | .jal => 0x6f
  | .jalr => 0x67
  | .beq | .bne | .blt | .bge | .bltu | .bgeu => 0x63
  | .lb | .lh | .lw | .lbu | .lhu => 0x03
  | .sb | .sh | .sw => 0x23
  | .addi | .slti | .sltiu | .xori | .ori | .andi | .slli | .srli | .srai => 0x13
  | .add | .sub | .sll | .slt | .sltu | .xor | .srl | .sra | .or | .and => 0x33

/-- The shifts by an amount are written as those by a register. -/
def Instr.format : Instr → Format
  | .lui | .auipc => .u
  | .jal => .j
  | .jalr => .i 0
  | .beq => .b 0
  | .bne => .b 1
  | .blt => .b 4
  | .bge => .b 5
  | .bltu => .b 6
  | .bgeu => .b 7
  | .lb => .i 0
  | .lh => .i 1
  | .lw => .i 2
  | .lbu => .i 4
  | .lhu => .i 5
  | .sb => .s 0
  | .sh => .s 1
  | .sw => .s 2
  | .addi => .i 0
  | .slti => .i 2
  | .sltiu => .i 3
  | .xori => .i 4
  | .ori => .i 6
  | .andi => .i 7
  | .slli | .sll => .r 0 1
  | .srli | .srl => .r 0 5
  | .srai | .sra => .r 0x20 5
  | .add => .r 0 0
  | .sub => .r 0x20 0
  | .slt => .r 0 2
  | .sltu => .r 0 3
  | .xor => .r 0 4
  | .or => .r 0 6
  | .and => .r 0 7

/-- A word from its six fields. -/
def assemble (funct7 : BitVec 7) (rs2 rs1 : BitVec 5) (funct3 : BitVec 3) (rd : BitVec 5)
    (opcode : BitVec 7) : BitVec 32 :=
  funct7 ++ rs2 ++ rs1 ++ funct3 ++ rd ++ opcode

def Format.encode (operands : Operands) (opcode : BitVec 7) : Format → BitVec 32
  | .r funct7 funct3 => assemble funct7 operands.rs2 operands.rs1 funct3 operands.rd opcode
  | .i funct3 =>
      assemble (operands.imm.extractLsb' 5 7) (operands.imm.extractLsb' 0 5) operands.rs1 funct3
        operands.rd opcode
  | .s funct3 =>
      assemble (operands.imm.extractLsb' 5 7) operands.rs2 operands.rs1 funct3
        (operands.imm.extractLsb' 0 5) opcode
  | .b funct3 =>
      assemble (operands.imm.extractLsb' 12 1 ++ operands.imm.extractLsb' 5 6) operands.rs2
        operands.rs1 funct3 (operands.imm.extractLsb' 1 4 ++ operands.imm.extractLsb' 11 1) opcode
  | .u =>
      assemble (operands.imm.extractLsb' 25 7) (operands.imm.extractLsb' 20 5)
        (operands.imm.extractLsb' 15 5) (operands.imm.extractLsb' 12 3) operands.rd opcode
  | .j =>
      assemble (operands.imm.extractLsb' 20 1 ++ operands.imm.extractLsb' 5 6)
        (operands.imm.extractLsb' 1 4 ++ operands.imm.extractLsb' 11 1)
        (operands.imm.extractLsb' 15 5) (operands.imm.extractLsb' 12 3) operands.rd opcode

def Instr.encode (instr : Instr) (operands : Operands) : BitVec 32 :=
  instr.format.encode operands instr.opcode

/-- What a word of the format has in its places. -/
def Format.Selects (insn : BitVec 32) : Format → Prop
  | .r funct7 funct3 => insn.extractLsb' 12 3 = funct3 ∧ insn.extractLsb' 25 7 = funct7
  | .i funct3 | .s funct3 | .b funct3 => insn.extractLsb' 12 3 = funct3
  | .u | .j => True

/-- The flag of an instruction tells its opcode and its format. -/
theorem flag_iff (insn : BitVec 32) (instr : Instr) :
    instr.flag insn = true ↔
      insn.extractLsb' 0 7 = instr.opcode ∧ instr.format.Selects insn := by
  cases instr <;>
    simp only [Instr.flag, Instr.opcode, Instr.format, Format.Selects, isAluRegImm, isAluRegReg,
      isSbShSw, isLbLhLwLbuLhu, isBeqBneBltBgeBltuBgeu, Bool.and_eq_true, beq_iff_eq, and_true,
      and_assoc]

/-! ### One flag at most -/

def Format.compatible : Format → Format → Bool
  | .r funct7 funct3, .r funct7' funct3' => funct7 == funct7' && funct3 == funct3'
  | .r _ funct3, .i funct3' => funct3 == funct3'
  | .i funct3, .r _ funct3' => funct3 == funct3'
  | .i funct3, .i funct3' => funct3 == funct3'
  | .s funct3, .s funct3' => funct3 == funct3'
  | .b funct3, .b funct3' => funct3 == funct3'
  | _, _ => true

theorem Format.Selects.compatible {insn : BitVec 32} {format format' : Format}
    (selects : format.Selects insn) (selects' : format'.Selects insn) :
    format.compatible format' = true := by
  cases format <;> cases format' <;> simp_all [Format.Selects, Format.compatible]

def Instr.all : List Instr :=
  [.lui, .auipc, .jal, .jalr, .beq, .bne, .blt, .bge, .bltu, .bgeu, .lb, .lh, .lw, .lbu, .lhu,
    .sb, .sh, .sw, .addi, .slti, .sltiu, .xori, .ori, .andi, .slli, .srli, .srai, .add, .sub, .sll,
    .slt, .sltu, .xor, .srl, .sra, .or, .and]

theorem Instr.mem_all (instr : Instr) : instr ∈ all := by
  cases instr <;> decide

theorem formats_apart : ∀ instr ∈ Instr.all, ∀ instr' ∈ Instr.all,
    instr.opcode = instr'.opcode → instr.format.compatible instr'.format = true →
      instr = instr' := by
  decide +kernel

theorem flag_unique {insn : BitVec 32} {instr instr' : Instr} (flag : instr.flag insn = true)
    (flag' : instr'.flag insn = true) : instr = instr' := by
  obtain ⟨opcode, selects⟩ := (flag_iff insn instr).mp flag
  obtain ⟨opcode', selects'⟩ := (flag_iff insn instr').mp flag'
  exact formats_apart instr instr.mem_all instr' instr'.mem_all (opcode.symm.trans opcode')
    (selects.compatible selects')

/-! ### Fields -/

theorem assemble_extract (insn : BitVec 32) :
    assemble (insn.extractLsb' 25 7) (insn.extractLsb' 20 5) (insn.extractLsb' 15 5)
      (insn.extractLsb' 12 3) (insn.extractLsb' 7 5) (insn.extractLsb' 0 7) = insn := by
  have second : insn.extractLsb' 25 7 ++ insn.extractLsb' 20 5 = insn.extractLsb' 20 12 :=
    BitVec.extractLsb'_append_extractLsb'_eq_extractLsb' rfl
  have first : insn.extractLsb' 20 12 ++ insn.extractLsb' 15 5 = insn.extractLsb' 15 17 :=
    BitVec.extractLsb'_append_extractLsb'_eq_extractLsb' rfl
  have middle : insn.extractLsb' 15 17 ++ insn.extractLsb' 12 3 = insn.extractLsb' 12 20 :=
    BitVec.extractLsb'_append_extractLsb'_eq_extractLsb' rfl
  have result : insn.extractLsb' 12 20 ++ insn.extractLsb' 7 5 = insn.extractLsb' 7 25 :=
    BitVec.extractLsb'_append_extractLsb'_eq_extractLsb' rfl
  have whole : insn.extractLsb' 7 25 ++ insn.extractLsb' 0 7 = insn.extractLsb' 0 32 :=
    BitVec.extractLsb'_append_extractLsb'_eq_extractLsb' rfl
  rw [assemble, second, first, middle, result, whole, BitVec.extractLsb'_eq_self]

section Assemble

variable (funct7 : BitVec 7) (rs2 rs1 : BitVec 5) (funct3 : BitVec 3) (rd : BitVec 5)
variable (opcode : BitVec 7)

theorem assemble_opcode :
    (assemble funct7 rs2 rs1 funct3 rd opcode).extractLsb' 0 7 = opcode :=
  BitVec.extractLsb'_append_eq_right

theorem assemble_funct3 :
    (assemble funct7 rs2 rs1 funct3 rd opcode).extractLsb' 12 3 = funct3 :=
  (BitVec.extractLsb'_append_eq_of_le (by decide)).trans
    ((BitVec.extractLsb'_append_eq_of_le (by decide)).trans BitVec.extractLsb'_append_eq_right)

theorem assemble_funct7 :
    (assemble funct7 rs2 rs1 funct3 rd opcode).extractLsb' 25 7 = funct7 :=
  (BitVec.extractLsb'_append_eq_of_le (by decide)).trans
    ((BitVec.extractLsb'_append_eq_of_le (by decide)).trans
      ((BitVec.extractLsb'_append_eq_of_le (by decide)).trans
        ((BitVec.extractLsb'_append_eq_of_le (by decide)).trans
          BitVec.extractLsb'_append_eq_left)))

end Assemble

/-! ### Immediates -/

/-- The immediate that a word of the format is decoded to. -/
def Format.ImmIs (insn : BitVec 32) : Format → Prop
  | .r _ _ => True
  | .i _ => decodedImm insn = some ((insn.extractLsb' 20 12).signExtend 32)
  | .s _ =>
      decodedImm insn = some ((insn.extractLsb' 25 7 ++ insn.extractLsb' 7 5).signExtend 32)
  | .b _ =>
      decodedImm insn = some ((insn.extractLsb' 31 1 ++ insn.extractLsb' 7 1 ++
        insn.extractLsb' 25 6 ++ insn.extractLsb' 8 4 ++ 0#1).signExtend 32)
  | .u => decodedImm insn = some (insn.extractLsb' 12 20 ++ 0#12)
  | .j => decodedImm insn = some (decodedImmJ insn)

theorem decodedImm_format {insn : BitVec 32} {instr : Instr} (flag : instr.flag insn = true) :
    instr.format.ImmIs insn := by
  obtain ⟨opcode, selects⟩ := (flag_iff insn instr).mp flag
  cases instr <;> simp only [Instr.opcode, Instr.format, Format.Selects] at opcode selects <;>
    simp [Format.ImmIs, Instr.format, decodedImm, Instr.flag, isLbLhLwLbuLhu, isAluRegImm,
      isBeqBneBltBgeBltuBgeu, isSbShSw, opcode, selects]

theorem source_slice (insn : BitVec 32) {start len : Nat} (behind : 1 ≤ start)
    (inside : start + len ≤ 21) :
    ((insn.extractLsb' 12 20 ++ 0#1).signExtend 32).extractLsb' start len =
      insn.extractLsb' (12 + (start - 1)) len := by
  rw [extract_signExtend _ inside (by decide), BitVec.extractLsb'_append_eq_of_le behind,
    extract_extract _ (by omega)]

/-- Above a sign there are copies of it. -/
theorem sign_slice (bits : BitVec 21) :
    (bits.signExtend 32).extractLsb' 20 12 = (bits.extractLsb' 20 1).signExtend 12 := by
  apply BitVec.eq_of_getLsbD_eq
  intro place below
  rw [BitVec.getLsbD_extractLsb', BitVec.getLsbD_signExtend, BitVec.getLsbD_signExtend]
  have inside : 20 + place < 32 := by omega
  cases place with
  | zero => simp
  | succ place =>
      have above : ¬ 20 + (place + 1) < 21 := by omega
      simp [below, inside, above, BitVec.msb_eq_getLsbD_last]

theorem slices_append (bits : BitVec 32) :
    bits.extractLsb' 20 12 ++ bits.extractLsb' 12 8 ++ bits.extractLsb' 11 1 ++
      bits.extractLsb' 1 10 ++ bits.extractLsb' 0 1 = bits := by
  have upper : bits.extractLsb' 20 12 ++ bits.extractLsb' 12 8 = bits.extractLsb' 12 20 :=
    BitVec.extractLsb'_append_extractLsb'_eq_extractLsb' rfl
  have middle : bits.extractLsb' 12 20 ++ bits.extractLsb' 11 1 = bits.extractLsb' 11 21 :=
    BitVec.extractLsb'_append_extractLsb'_eq_extractLsb' rfl
  have lower : bits.extractLsb' 11 21 ++ bits.extractLsb' 1 10 = bits.extractLsb' 1 31 :=
    BitVec.extractLsb'_append_extractLsb'_eq_extractLsb' rfl
  have whole : bits.extractLsb' 1 31 ++ bits.extractLsb' 0 1 = bits.extractLsb' 0 32 :=
    BitVec.extractLsb'_append_extractLsb'_eq_extractLsb' rfl
  rw [upper, middle, lower, whole, BitVec.extractLsb'_eq_self]

/-- The four slices of an even immediate in the order of its bits. -/
theorem ordered_slices {first second third fourth : Nat} (sign : BitVec first)
    (upper : BitVec second) (middle : BitVec third) (lower : BitVec fourth)
    {bits : BitVec (first + second + third + fourth + 1)}
    (ordered : bits = (sign ++ upper ++ middle ++ lower) ++ 0#1) :
    bits.extractLsb' (second + third + fourth + 1) first = sign ∧
      bits.extractLsb' (third + fourth + 1) second = upper ∧
      bits.extractLsb' (fourth + 1) third = middle ∧
      bits.extractLsb' 1 fourth = lower ∧ bits.extractLsb' 0 1 = 0#1 := by
  subst ordered
  have behind (start len : Nat) : ((sign ++ upper ++ middle ++ lower) ++ 0#1).extractLsb'
      (start + 1) len = (sign ++ upper ++ middle ++ lower).extractLsb' start len := by
    rw [BitVec.extractLsb'_append_eq_of_le (Nat.le_add_left 1 start), Nat.add_sub_cancel]
  have third' (start len : Nat) : (sign ++ upper ++ middle ++ lower).extractLsb'
      (start + fourth) len = (sign ++ upper ++ middle).extractLsb' start len := by
    rw [BitVec.extractLsb'_append_eq_of_le (Nat.le_add_left fourth start), Nat.add_sub_cancel]
  have second' (start len : Nat) : (sign ++ upper ++ middle).extractLsb' (start + third) len =
      (sign ++ upper).extractLsb' start len := by
    rw [BitVec.extractLsb'_append_eq_of_le (Nat.le_add_left third start), Nat.add_sub_cancel]
  refine ⟨?_, ?_, ?_, ?_, BitVec.extractLsb'_append_eq_right⟩
  · rw [behind, third', second', BitVec.extractLsb'_append_eq_left]
  · have lowest := second' 0 second
    rw [Nat.zero_add] at lowest
    rw [behind, third', lowest, BitVec.extractLsb'_append_eq_right]
  · have lowest := third' 0 third
    rw [Nat.zero_add] at lowest
    rw [behind, lowest, BitVec.extractLsb'_append_eq_right]
  · rw [behind 0, BitVec.extractLsb'_append_eq_right]

/-- `decoded_imm_j` in the order of its bits. -/
theorem decodedImmJ_eq (insn : BitVec 32) :
    decodedImmJ insn = ((insn.extractLsb' 31 1 ++ insn.extractLsb' 12 8 ++
      insn.extractLsb' 20 1 ++ insn.extractLsb' 21 10) ++ 0#1).signExtend 32 := by
  generalize ordered : (insn.extractLsb' 31 1 ++ insn.extractLsb' 12 8 ++ insn.extractLsb' 20 1 ++
    insn.extractLsb' 21 10) ++ 0#1 = bits
  obtain ⟨sign, upper, middle, lower, lowest⟩ := @ordered_slices 1 8 1 10 _ _ _ _ bits ordered.symm
  have sign' : ((insn.extractLsb' 12 20 ++ 0#1).signExtend 32).extractLsb' 20 12 =
      (insn.extractLsb' 31 1).signExtend 12 := by
    rw [sign_slice, BitVec.extractLsb'_append_eq_of_le (by decide), extract_extract _ (by decide)]
  have lowest' : ((insn.extractLsb' 12 20 ++ 0#1).signExtend 32).extractLsb' 0 1 = 0#1 := by
    rw [extract_signExtend _ (by decide) (by decide), BitVec.extractLsb'_append_eq_right]
  rw [← slices_append (bits.signExtend 32), sign_slice, sign,
    extract_signExtend _ (by decide) (by decide), upper,
    extract_signExtend _ (by decide) (by decide), middle,
    extract_signExtend _ (by decide) (by decide), lower,
    extract_signExtend _ (by decide) (by decide), lowest, decodedImmJ, sign', lowest',
    source_slice insn (by decide) (by decide), source_slice insn (by decide) (by decide),
    source_slice insn (by decide) (by decide)]

theorem decodedImmJ_extract (insn : BitVec 32) :
    (decodedImmJ insn).extractLsb' 20 1 = insn.extractLsb' 31 1 ∧
      (decodedImmJ insn).extractLsb' 12 8 = insn.extractLsb' 12 8 ∧
      (decodedImmJ insn).extractLsb' 11 1 = insn.extractLsb' 20 1 ∧
      (decodedImmJ insn).extractLsb' 1 10 = insn.extractLsb' 21 10 := by
  rw [decodedImmJ_eq, extract_signExtend _ (by decide) (by decide),
    extract_signExtend _ (by decide) (by decide), extract_signExtend _ (by decide) (by decide),
    extract_signExtend _ (by decide) (by decide)]
  obtain ⟨sign, upper, middle, lower, -⟩ := @ordered_slices 1 8 1 10 _ _ _ _ _ rfl
  exact ⟨sign, upper, middle, lower⟩

/-! Each format puts the immediate back where it has come from. -/

section Encode

variable {insn : BitVec 32} {funct3 : BitVec 3}

theorem encode_i (imm : (Format.i funct3).ImmIs insn) (selects : insn.extractLsb' 12 3 = funct3) :
    (Format.i funct3).encode (decoded insn) (insn.extractLsb' 0 7) = insn := by
  have value : (decoded insn).imm = (insn.extractLsb' 20 12).signExtend 32 :=
    congrArg (Option.getD · 0) imm
  rw [Format.encode, ← selects, value, extract_signExtend _ (by decide) (by decide),
    extract_signExtend _ (by decide) (by decide), extract_extract _ (by decide),
    extract_extract _ (by decide)]
  exact assemble_extract insn

theorem encode_s (imm : (Format.s funct3).ImmIs insn) (selects : insn.extractLsb' 12 3 = funct3) :
    (Format.s funct3).encode (decoded insn) (insn.extractLsb' 0 7) = insn := by
  have value : (decoded insn).imm =
      (insn.extractLsb' 25 7 ++ insn.extractLsb' 7 5).signExtend 32 :=
    congrArg (Option.getD · 0) imm
  rw [Format.encode, ← selects, value, extract_signExtend _ (by decide) (by decide),
    extract_signExtend _ (by decide) (by decide), BitVec.extractLsb'_append_eq_left,
    BitVec.extractLsb'_append_eq_right]
  exact assemble_extract insn

theorem encode_b (imm : (Format.b funct3).ImmIs insn) (selects : insn.extractLsb' 12 3 = funct3) :
    (Format.b funct3).encode (decoded insn) (insn.extractLsb' 0 7) = insn := by
  have value : (decoded insn).imm = (insn.extractLsb' 31 1 ++ insn.extractLsb' 7 1 ++
      insn.extractLsb' 25 6 ++ insn.extractLsb' 8 4 ++ 0#1).signExtend 32 :=
    congrArg (Option.getD · 0) imm
  obtain ⟨sign, below, high, low, -⟩ := @ordered_slices 1 1 6 4 (insn.extractLsb' 31 1)
    (insn.extractLsb' 7 1) (insn.extractLsb' 25 6) (insn.extractLsb' 8 4) _ rfl
  have upper : insn.extractLsb' 31 1 ++ insn.extractLsb' 25 6 = insn.extractLsb' 25 7 :=
    BitVec.extractLsb'_append_extractLsb'_eq_extractLsb' rfl
  have lower : insn.extractLsb' 8 4 ++ insn.extractLsb' 7 1 = insn.extractLsb' 7 5 :=
    BitVec.extractLsb'_append_extractLsb'_eq_extractLsb' rfl
  rw [Format.encode, ← selects, value, extract_signExtend _ (by decide) (by decide),
    extract_signExtend _ (by decide) (by decide), extract_signExtend _ (by decide) (by decide),
    extract_signExtend _ (by decide) (by decide), sign, below, high, low, upper, lower]
  exact assemble_extract insn

theorem encode_u (imm : Format.u.ImmIs insn) :
    Format.u.encode (decoded insn) (insn.extractLsb' 0 7) = insn := by
  have value : (decoded insn).imm = insn.extractLsb' 12 20 ++ 0#12 :=
    congrArg (Option.getD · 0) imm
  rw [Format.encode, value, BitVec.extractLsb'_append_eq_of_le (by decide),
    BitVec.extractLsb'_append_eq_of_le (by decide),
    BitVec.extractLsb'_append_eq_of_le (by decide),
    BitVec.extractLsb'_append_eq_of_le (by decide), extract_extract _ (by decide),
    extract_extract _ (by decide), extract_extract _ (by decide),
    extract_extract _ (by decide)]
  exact assemble_extract insn

theorem encode_j (imm : Format.j.ImmIs insn) :
    Format.j.encode (decoded insn) (insn.extractLsb' 0 7) = insn := by
  have value : (decoded insn).imm = decodedImmJ insn := congrArg (Option.getD · 0) imm
  obtain ⟨sign, upper, below, low⟩ := decodedImmJ_extract insn
  rw [← value] at sign upper below low
  have high : (decoded insn).imm.extractLsb' 5 6 = insn.extractLsb' 25 6 := by
    rw [← extract_extract _ (show 4 + 6 ≤ 10 by decide), low, extract_extract _ (by decide)]
  have lowest : (decoded insn).imm.extractLsb' 1 4 = insn.extractLsb' 21 4 := by
    rw [← extract_extract _ (show 0 + 4 ≤ 10 by decide), low, extract_extract _ (by decide)]
  have top : (decoded insn).imm.extractLsb' 15 5 = insn.extractLsb' 15 5 := by
    rw [← extract_extract _ (show 3 + 5 ≤ 8 by decide), upper, extract_extract _ (by decide)]
  have middle : (decoded insn).imm.extractLsb' 12 3 = insn.extractLsb' 12 3 := by
    rw [← extract_extract _ (show 0 + 3 ≤ 8 by decide), upper, extract_extract _ (by decide)]
  have highest : insn.extractLsb' 31 1 ++ insn.extractLsb' 25 6 = insn.extractLsb' 25 7 :=
    BitVec.extractLsb'_append_extractLsb'_eq_extractLsb' rfl
  have lower : insn.extractLsb' 21 4 ++ insn.extractLsb' 20 1 = insn.extractLsb' 20 5 :=
    BitVec.extractLsb'_append_extractLsb'_eq_extractLsb' rfl
  rw [Format.encode, sign, below, high, lowest, top, middle, highest, lower]
  exact assemble_extract insn

end Encode

theorem Format.encode_decoded {insn : BitVec 32} {format : Format}
    (selects : format.Selects insn) (imm : format.ImmIs insn) :
    format.encode (decoded insn) (insn.extractLsb' 0 7) = insn := by
  cases format with
  | r funct7 funct3 =>
      obtain ⟨rfl, rfl⟩ := selects
      exact assemble_extract insn
  | i funct3 => exact encode_i imm selects
  | s funct3 => exact encode_s imm selects
  | b funct3 => exact encode_b imm selects
  | u => exact encode_u imm
  | j => exact encode_j imm

/-- The word of a flag is its instruction with what has been decoded. -/
theorem encode_decoded {insn : BitVec 32} {instr : Instr} (flag : instr.flag insn = true) :
    instr.encode (decoded insn) = insn := by
  obtain ⟨opcode, selects⟩ := (flag_iff insn instr).mp flag
  rw [Instr.encode, ← opcode]
  exact Format.encode_decoded selects (decodedImm_format flag)

theorem Format.encode_selects (format : Format) (operands : Operands) (opcode : BitVec 7) :
    (format.encode operands opcode).extractLsb' 0 7 = opcode ∧
      format.Selects (format.encode operands opcode) := by
  cases format with
  | r funct7 funct3 =>
      exact ⟨assemble_opcode _ _ _ _ _ _, assemble_funct3 _ _ _ _ _ _,
        assemble_funct7 _ _ _ _ _ _⟩
  | i funct3 => exact ⟨assemble_opcode _ _ _ _ _ _, assemble_funct3 _ _ _ _ _ _⟩
  | s funct3 => exact ⟨assemble_opcode _ _ _ _ _ _, assemble_funct3 _ _ _ _ _ _⟩
  | b funct3 => exact ⟨assemble_opcode _ _ _ _ _ _, assemble_funct3 _ _ _ _ _ _⟩
  | u => exact ⟨assemble_opcode _ _ _ _ _ _, trivial⟩
  | j => exact ⟨assemble_opcode _ _ _ _ _ _, trivial⟩

/-- Every instruction is recognised, whatever its operands. -/
theorem encode_flag (instr : Instr) (operands : Operands) :
    instr.flag (instr.encode operands) = true :=
  (flag_iff _ instr).mpr (instr.format.encode_selects operands instr.opcode)

/-- An immediate that the format can hold. -/
def Format.Holds (imm : BitVec 32) : Format → Prop
  | .r _ _ => True
  | .i _ | .s _ => ∃ bits : BitVec 12, imm = bits.signExtend 32
  | .b _ => ∃ bits : BitVec 12, imm = (bits ++ 0#1).signExtend 32
  | .u => ∃ bits : BitVec 20, imm = bits ++ 0#12
  | .j => ∃ bits : BitVec 20, imm = (bits ++ 0#1).signExtend 32

/-- The same operands, as far as the format has them. -/
def Format.Same (operands operands' : Operands) : Format → Prop
  | .r _ _ =>
      operands.rd = operands'.rd ∧ operands.rs1 = operands'.rs1 ∧ operands.rs2 = operands'.rs2
  | .i _ =>
      operands.rd = operands'.rd ∧ operands.rs1 = operands'.rs1 ∧ operands.imm = operands'.imm
  | .s _ | .b _ =>
      operands.rs1 = operands'.rs1 ∧ operands.rs2 = operands'.rs2 ∧ operands.imm = operands'.imm
  | .u | .j => operands.rd = operands'.rd ∧ operands.imm = operands'.imm

/-! ### Back and forth -/

theorem assemble_inj {funct7 funct7' : BitVec 7} {rs2 rs2' rs1 rs1' : BitVec 5}
    {funct3 funct3' : BitVec 3} {rd rd' : BitVec 5} {opcode opcode' : BitVec 7}
    (same : assemble funct7 rs2 rs1 funct3 rd opcode =
      assemble funct7' rs2' rs1' funct3' rd' opcode') :
    funct7 = funct7' ∧ rs2 = rs2' ∧ rs1 = rs1' ∧ funct3 = funct3' ∧ rd = rd' := by
  obtain ⟨same, -⟩ := append_inj same
  obtain ⟨same, rd⟩ := append_inj same
  obtain ⟨same, funct3⟩ := append_inj same
  obtain ⟨same, rs1⟩ := append_inj same
  obtain ⟨funct7, rs2⟩ := append_inj same
  exact ⟨funct7, rs2, rs1, funct3, rd⟩

/-- Operands that a format holds are told by the word. -/
theorem Format.encode_inj {format : Format} {operands operands' : Operands} {opcode : BitVec 7}
    (holds : format.Holds operands.imm) (holds' : format.Holds operands'.imm)
    (same : format.encode operands opcode = format.encode operands' opcode) :
    format.Same operands operands' := by
  cases format with
  | r funct7 funct3 =>
      obtain ⟨-, rs2, rs1, -, rd⟩ := assemble_inj same
      exact ⟨rd, rs1, rs2⟩
  | i funct3 =>
      obtain ⟨high, low, rs1, -, rd⟩ := assemble_inj same
      obtain ⟨bits, imm⟩ := holds
      obtain ⟨bits', imm'⟩ := holds'
      have slice : operands.imm.extractLsb' 0 12 = operands'.imm.extractLsb' 0 12 :=
        slices_join low high
      rw [imm, imm', signed_slice _ (by decide), signed_slice _ (by decide)] at slice
      exact ⟨rd, rs1, by rw [imm, imm', slice]⟩
  | s funct3 =>
      obtain ⟨high, rs2, rs1, -, low⟩ := assemble_inj same
      obtain ⟨bits, imm⟩ := holds
      obtain ⟨bits', imm'⟩ := holds'
      have slice : operands.imm.extractLsb' 0 12 = operands'.imm.extractLsb' 0 12 :=
        slices_join low high
      rw [imm, imm', signed_slice _ (by decide), signed_slice _ (by decide)] at slice
      exact ⟨rs1, rs2, by rw [imm, imm', slice]⟩
  | b funct3 =>
      obtain ⟨high, rs2, rs1, -, low⟩ := assemble_inj same
      obtain ⟨sign, upper⟩ := append_inj high
      obtain ⟨lowest, below⟩ := append_inj low
      obtain ⟨bits, imm⟩ := holds
      obtain ⟨bits', imm'⟩ := holds'
      have slice : operands.imm.extractLsb' 1 12 = operands'.imm.extractLsb' 1 12 :=
        slices_join (slices_join (slices_join lowest upper) below) sign
      rw [imm, imm', even_slice _ (by decide), even_slice _ (by decide)] at slice
      exact ⟨rs1, rs2, by rw [imm, imm', slice]⟩
  | u =>
      obtain ⟨highest, high, low, lowest, rd⟩ := assemble_inj same
      obtain ⟨bits, imm⟩ := holds
      obtain ⟨bits', imm'⟩ := holds'
      have slice : operands.imm.extractLsb' 12 20 = operands'.imm.extractLsb' 12 20 :=
        slices_join (slices_join (slices_join lowest low) high) highest
      rw [imm, imm', BitVec.extractLsb'_append_eq_left, BitVec.extractLsb'_append_eq_left] at slice
      exact ⟨rd, by rw [imm, imm', slice]⟩
  | j =>
      obtain ⟨high, low, upper, middle, rd⟩ := assemble_inj same
      obtain ⟨sign, higher⟩ := append_inj high
      obtain ⟨lowest, below⟩ := append_inj low
      obtain ⟨bits, imm⟩ := holds
      obtain ⟨bits', imm'⟩ := holds'
      have lower : operands.imm.extractLsb' 1 11 = operands'.imm.extractLsb' 1 11 :=
        slices_join (slices_join lowest higher) below
      have slice : operands.imm.extractLsb' 1 20 = operands'.imm.extractLsb' 1 20 :=
        slices_join (slices_join (slices_join lower middle) upper) sign
      rw [imm, imm', even_slice _ (by decide), even_slice _ (by decide)] at slice
      exact ⟨rd, by rw [imm, imm', slice]⟩

theorem Format.ImmIs.holds {insn : BitVec 32} {format : Format} (imm : format.ImmIs insn) :
    format.Holds (decoded insn).imm := by
  cases format with
  | r _ _ => trivial
  | i _ => exact ⟨_, congrArg (Option.getD · 0) imm⟩
  | s _ => exact ⟨_, congrArg (Option.getD · 0) imm⟩
  | b _ => exact ⟨_, congrArg (Option.getD · 0) imm⟩
  | u => exact ⟨_, congrArg (Option.getD · 0) imm⟩
  | j => exact ⟨_, (congrArg (Option.getD · 0) imm).trans (decodedImmJ_eq insn)⟩

/-- No word with a flag is compressed. -/
theorem full_of_flag {insn : BitVec 32} {instr : Instr} (flag : instr.flag insn = true) :
    insn.extractLsb' 0 2 = 0b11#2 := by
  obtain ⟨opcode, -⟩ := (flag_iff insn instr).mp flag
  have low : (insn.extractLsb' 0 7).extractLsb' 0 2 = insn.extractLsb' 0 2 :=
    extract_extract insn (by decide)
  rw [← low, opcode]
  cases instr <;> decide

/-- An instruction as it stands in the memory. -/
def Instr.write (instr : Instr) (operands : Operands) : FullWord :=
  ⟨instr.encode operands, full_of_flag (encode_flag instr operands)⟩

/-- A flag is up behind the words of its instruction and no others; behind such a
word no other flag is, and the operands are those of the word. -/
theorem decoder_reads (insn : FullWord) (instr : Instr) :
    (instr.flag insn.bits = true ↔
        ∃ operands, instr.format.Holds operands.imm ∧ instr.write operands = insn) ∧
      ∀ operands, instr.format.Holds operands.imm → instr.write operands = insn →
        (∀ instr' : Instr, instr'.flag insn.bits = true → instr' = instr) ∧
          instr.format.Same (decoded insn.bits) operands := by
  refine ⟨⟨?_, ?_⟩, ?_⟩
  · intro flag
    refine ⟨decoded insn.bits, (decodedImm_format flag).holds, ?_⟩
    rw [Instr.write, FullWord.mk.injEq]
    exact encode_decoded flag
  · rintro ⟨operands, -, rfl⟩
    exact encode_flag instr operands
  · rintro operands holds rfl
    have flag := encode_flag instr operands
    refine ⟨fun instr' flag' => flag_unique flag' flag, ?_⟩
    exact Format.encode_inj (decodedImm_format flag).holds holds (encode_decoded flag)

/-- `jal ra, -4` -/
example : Instr.jal.flag 0xffdff0ef = true ∧ (decoded 0xffdff0ef).rd = 1 ∧
    (decoded 0xffdff0ef).imm = -4 := by decide

/-- The multiplications and divisions are left to the co-processors. -/
theorem isM_unflagged {insn : BitVec 32} (extension : isM insn = true) (instr : Instr) :
    instr.flag insn = false := by
  rw [isM, Bool.and_eq_true, beq_iff_eq, beq_iff_eq] at extension
  obtain ⟨low, high⟩ := extension
  cases flag : instr.flag insn with
  | false => rfl
  | true =>
      obtain ⟨opcode, selects⟩ := (flag_iff insn instr).mp flag
      rw [low] at opcode
      cases instr <;> simp [Instr.opcode] at opcode <;>
        simp [Instr.format, Format.Selects, high] at selects

end ZipVersa.Picorv
