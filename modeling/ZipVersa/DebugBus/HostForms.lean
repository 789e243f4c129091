import ZipVersa.DebugBus.Codewords
import ZipVersa.DebugBus.TtyBus

/-! The forms the host sends, as the device understands them: whichever
address form `encode_address` picks, it moves the address register to the
address asked for, and each length of `readcmd` but one is a read. -/

set_option autoImplicit false

namespace ZipVersa.DebugBus

open Lib

/-! ### Reassembling six-bit pieces -/

section Pieces

variable (value : BitVec 32)

theorem six_one : six value 0 = value.setWidth 6 := by simp [six]

theorem six_two : six value 6 ++ six value 0 = value.setWidth 12 := by
  ext position inside
  simp [six]
  grind

theorem six_three : six value 12 ++ six value 6 ++ six value 0 = value.setWidth 18 := by
  ext position inside
  simp [six]
  grind

theorem six_four :
    six value 18 ++ six value 12 ++ six value 6 ++ six value 0 = value.setWidth 24 := by
  ext position inside
  simp [six]
  grind

theorem six_five :
    six value 24 ++ six value 18 ++ six value 12 ++ six value 6 ++ six value 0 =
      value.setWidth 30 := by
  ext position inside
  simp [six]
  grind

variable {value}

theorem unsigned_piece (width : Nat) (narrow : width ≤ 24) (small : value.toNat < 2 ^ width) :
    ((value.setWidth width).setWidth 25).signExtend 32 = value := by
  have wide : 2 ^ width ≤ 2 ^ 24 := Nat.pow_le_pow_right (by decide) narrow
  have held : ((value.setWidth width).setWidth 25).toNat = value.toNat := by
    simp only [BitVec.toNat_setWidth]
    rw [Nat.mod_eq_of_lt small, Nat.mod_eq_of_lt (by omega)]
  have positive : ((value.setWidth width).setWidth 25).msb = false := by
    rw [BitVec.msb_eq_false_iff_two_mul_lt, held]
    omega
  apply BitVec.eq_of_toNat_eq
  rw [BitVec.signExtend_eq_setWidth_of_msb_false positive, BitVec.toNat_setWidth, held]
  omega

theorem signed_piece (width : Nat) (narrow : width < 24) (small : value.toNat < 2 ^ width) :
    ((value.setWidth (width + 1)).signExtend 25).signExtend 32 = value := by
  have wide : 2 ^ width ≤ 2 ^ 23 := Nat.pow_le_pow_right (by decide) (by omega)
  have doubled : 2 ^ (width + 1) = 2 * 2 ^ width := by rw [Nat.pow_succ]; omega
  have held : (value.setWidth (width + 1)).toNat = value.toNat := by
    rw [BitVec.toNat_setWidth, Nat.mod_eq_of_lt (by omega)]
  have positive : (value.setWidth (width + 1)).msb = false := by
    rw [BitVec.msb_eq_false_iff_two_mul_lt, held]
    omega
  rw [BitVec.signExtend_eq_setWidth_of_msb_false positive]
  exact unsigned_piece (width + 1) (by omega) (by omega)

end Pieces

/-! ### Address forms -/

section NextAddr

variable {word : Word}

theorem nextAddr_08 (form : slot word 0 = 0x08) :
    Decompress.nextAddr word = (slot word 1).setWidth 25 := by
  rw [Decompress.nextAddr, extract_30_3, form, extract_24_6]
  rfl

theorem nextAddr_0a (form : slot word 0 = 0x0a) :
    Decompress.nextAddr word = (slot word 1 ++ slot word 2).setWidth 25 := by
  rw [Decompress.nextAddr, extract_30_3, form, extract_18_12]
  rfl

theorem nextAddr_0c (form : slot word 0 = 0x0c) :
    Decompress.nextAddr word = (slot word 1 ++ slot word 2 ++ slot word 3).setWidth 25 := by
  rw [Decompress.nextAddr, extract_30_3, form, extract_12_18]
  rfl

theorem nextAddr_0e (form : slot word 0 = 0x0e) :
    Decompress.nextAddr word = (slot word 1 ++ slot word 2 ++ slot word 3 ++ slot word 4).setWidth 25 := by
  rw [Decompress.nextAddr, extract_30_3, form, extract_6_24]
  rfl

theorem nextAddr_09 (form : slot word 0 = 0x09) :
    Decompress.nextAddr word = (slot word 1).signExtend 25 := by
  rw [Decompress.nextAddr, extract_30_3, form, extract_24_6]
  rfl

theorem nextAddr_0b (form : slot word 0 = 0x0b) :
    Decompress.nextAddr word = (slot word 1 ++ slot word 2).signExtend 25 := by
  rw [Decompress.nextAddr, extract_30_3, form, extract_18_12]
  rfl

theorem nextAddr_0d (form : slot word 0 = 0x0d) :
    Decompress.nextAddr word = (slot word 1 ++ slot word 2 ++ slot word 3).signExtend 25 := by
  rw [Decompress.nextAddr, extract_30_3, form, extract_12_18]
  rfl

theorem nextAddr_0f (form : slot word 0 = 0x0f) :
    Decompress.nextAddr word = (slot word 1 ++ slot word 2 ++ slot word 3 ++ slot word 4).signExtend 25 := by
  rw [Decompress.nextAddr, extract_30_3, form, extract_6_24]
  rfl

end NextAddr

/-- An absolute form: the address comes out of `nextAddr`. -/
theorem Decoder.Ready.spells_absolute {decoder : Decoder} (ready : decoder.Ready) {first : Six}
    {rest : List Six} {addr : BitVec 32} (size : (codwordLen first).toNat = rest.length + 1)
    (code : first.extractLsb' 3 3 = 0b001) (absolute : first.extractLsb' 0 1 = 0)
    (last : first.extractLsb' 4 2 = 0)
    (held : ∀ word : Word, (∀ (index : Nat) (inside : index < (first :: rest).length),
      slot word index = (first :: rest)[index]) →
      (Decompress.nextAddr word).signExtend 32 = addr) :
    ∃ after, decoder.Spells (first :: rest) (.setAddress addr) 0 after ∧ decoder.Kept after := by
  rw [← last]
  refine ready.spells first rest size (by rw [code]; decide) _ ?_
  intro word keeper _ _ slots
  have head : slot word 0 = first := slots 0 (by simp)
  rw [Decoder.expand, unpack_absolute (by rw [head, code]) (by rw [head, absolute]), held word slots,
    decode_setAddress]

theorem Decoder.Ready.spells_relative {decoder : Decoder} (ready : decoder.Ready) {first : Six}
    {rest : List Six} {offset : BitVec 32} (size : (codwordLen first).toNat = rest.length + 1)
    (code : first.extractLsb' 3 3 = 0b001) (relative : first.extractLsb' 0 1 = 1)
    (last : first.extractLsb' 4 2 = 0)
    (held : ∀ word : Word, (∀ (index : Nat) (inside : index < (first :: rest).length),
      slot word index = (first :: rest)[index]) →
      (Decompress.nextAddr word).signExtend 32 = offset) :
    ∃ after, decoder.Spells (first :: rest) (.moveAddress offset) 0 after ∧
      decoder.Kept after := by
  rw [← last]
  refine ready.spells first rest size (by rw [code]; decide) _ ?_
  intro word keeper _ _ slots
  have head : slot word 0 = first := slots 0 (by simp)
  rw [Decoder.expand, unpack_relative (by rw [head, code]) (by rw [head, relative]),
    held word slots, decode_moveAddress]

/-- The six-character form. -/
theorem Decoder.Ready.spells_full {decoder : Decoder} (ready : decoder.Ready) (addr : BitVec 32) :
    ∃ after, decoder.Spells (TtyBus.encode 0 addr) (.setAddress addr) 0 after ∧
      decoder.Kept after := by
  have first : ((0 : Six) <<< 2) ||| (six addr 30 &&& 3) = (addr.extractLsb' 30 2).setWidth 6 := by
    ext position inside
    interval_cases position <;> simp [six]
  have code : ∀ top : BitVec 2, (top.setWidth 6).extractLsb' 3 3 = 0b000 := by decide
  have last : ∀ top : BitVec 2, (top.setWidth 6).extractLsb' 4 2 = 0 := by decide
  have size : ∀ top : BitVec 2, (codwordLen (top.setWidth 6)).toNat = 6 := by decide
  rw [TtyBus.encode, first, ← last (addr.extractLsb' 30 2)]
  refine ready.spells _ _ (size _) (by rw [code]; decide) _ ?_
  intro word keeper _ _ slots
  have slot0 : slot word 0 = (addr.extractLsb' 30 2).setWidth 6 := slots 0 (by simp)
  have slot1 : slot word 1 = six addr 24 := slots 1 (by simp)
  have slot2 : slot word 2 = six addr 18 := slots 2 (by simp)
  have slot3 : slot word 3 = six addr 12 := slots 3 (by simp)
  have slot4 : slot word 4 = six addr 6 := slots 4 (by simp)
  have slot5 : slot word 5 = six addr 0 := slots 5 (by simp)
  have low : word.extractLsb' 0 30 = addr.setWidth 30 := by
    rw [extract_0_30, slot1, slot2, slot3, slot4, slot5, six_five]
  rw [Decoder.expand, unpack_whole (.inr (.inl (by rw [slot0, code])))]
  have top : ∀ position < 6, word.getLsbD (30 + position) =
      ((addr.extractLsb' 30 2).setWidth 6).getLsbD position := by
    intro position inside
    rw [← slot0]
    simp [slot, inside]
  have bottom : ∀ position < 30, word.getLsbD position = addr.getLsbD position := by
    intro position inside
    have same := congrArg (fun bits => bits.getLsbD position) low
    simpa [inside] using same
  have zero : word.extractLsb' 32 4 = 0b0000 := by
    apply BitVec.eq_of_getLsbD_eq
    intro position inside
    have bit := top (position + 2) (by omega)
    rw [show 30 + (position + 2) = 32 + position by omega] at bit
    simp [inside, bit]
  have all : word.extractLsb' 0 32 = addr := by
    apply BitVec.eq_of_getLsbD_eq
    intro position inside
    simp only [BitVec.getLsbD_extractLsb', inside, decide_true, Bool.true_and, Nat.zero_add]
    by_cases small : position < 30
    · exact bottom position small
    · have bit := top (position - 30) (by omega)
      rw [show 30 + (position - 30) = position by omega] at bit
      rw [bit]
      simp [show position - 30 < 2 by omega, show 30 + (position - 30) = position by omega]
      omega
  rw [decode, if_pos zero, all]

/-! ### `encode_address` -/

namespace TtyBus

/-- Each absolute form sets the address. -/
theorem encodeAbsolute_spells {decoder : Decoder} (ready : decoder.Ready) (addr : BitVec 32)
    (relative : List Six) :
    (∃ after, decoder.Spells (encodeAbsolute addr relative) (.setAddress addr) 0 after ∧
      decoder.Kept after) ∨
    (encodeAbsolute addr relative = relative ∧ relative ≠ [] ∧
      (2 ≤ relative.length → 2 ^ 6 ≤ addr.toNat) ∧ (3 ≤ relative.length → 2 ^ 12 ≤ addr.toNat) ∧
      (4 ≤ relative.length → 2 ^ 18 ≤ addr.toNat) ∧
      (5 ≤ relative.length → 2 ^ 24 ≤ addr.toNat)) := by
  unfold encodeAbsolute
  split
  · next fits =>
      refine .inl (ready.spells_absolute rfl rfl rfl rfl fun word slots => ?_)
      rw [nextAddr_08 (slots 0 (by simp)), slots 1 (by simp)]
      simp only [List.getElem_cons_succ, List.getElem_cons_zero]
      rw [six_one]
      exact unsigned_piece 6 (by decide) (Nat.lt_succ_of_le fits.1)
  split
  · next fits =>
      refine .inl (ready.spells_absolute rfl rfl rfl rfl fun word slots => ?_)
      rw [nextAddr_0a (slots 0 (by simp)), slots 1 (by simp), slots 2 (by simp)]
      simp only [List.getElem_cons_succ, List.getElem_cons_zero]
      rw [six_two]
      exact unsigned_piece 12 (by decide) (Nat.lt_succ_of_le fits.1)
  split
  · next fits =>
      refine .inl (ready.spells_absolute rfl rfl rfl rfl fun word slots => ?_)
      rw [nextAddr_0c (slots 0 (by simp)), slots 1 (by simp), slots 2 (by simp),
        slots 3 (by simp)]
      simp only [List.getElem_cons_succ, List.getElem_cons_zero]
      rw [six_three]
      exact unsigned_piece 18 (by decide) (Nat.lt_succ_of_le fits.1)
  split
  · next fits =>
      refine .inl (ready.spells_absolute rfl rfl rfl rfl fun word slots => ?_)
      rw [nextAddr_0e (slots 0 (by simp)), slots 1 (by simp), slots 2 (by simp),
        slots 3 (by simp), slots 4 (by simp)]
      simp only [List.getElem_cons_succ, List.getElem_cons_zero]
      rw [six_four]
      exact unsigned_piece 24 (by decide) (Nat.lt_succ_of_le fits.1)
  split
  · exact .inl (ready.spells_full addr)
  next short two three four some =>
    refine .inr ⟨rfl, some, ?_, ?_, ?_, ?_⟩
    · intro long
      have above : ¬ addr ≤ 0x03f := fun under => short ⟨under, .inr long⟩
      exact Nat.lt_of_not_le above
    · intro long
      have above : ¬ addr ≤ 0x0fff := fun under => two ⟨under, .inr long⟩
      exact Nat.lt_of_not_le above
    · intro long
      have above : ¬ addr ≤ 0x03ffff := fun under => three ⟨under, .inr long⟩
      exact Nat.lt_of_not_le above
    · intro long
      have above : ¬ addr ≤ 0x0ffffff := fun under => four ⟨under, .inr long⟩
      exact Nat.lt_of_not_le above

theorem slt_of_positive {diffaddr bound : BitVec 32} (positive : diffaddr.toNat < 2 ^ 31)
    (small : bound.toNat < 2 ^ 31) : diffaddr.slt bound = decide (diffaddr.toNat < bound.toNat) := by
  rw [BitVec.slt_eq_decide, BitVec.toInt_eq_toNat_of_lt (by omega),
    BitVec.toInt_eq_toNat_of_lt (by omega)]
  simp

theorem sle_of_negative {diffaddr bound : BitVec 32} (positive : diffaddr.toNat < 2 ^ 31)
    (negative : bound.toInt ≤ 0) : bound.sle diffaddr = true := by
  have natural : diffaddr.toInt = diffaddr.toNat := BitVec.toInt_eq_toNat_of_lt (by omega)
  rw [BitVec.sle_eq_decide, natural, decide_eq_true_iff]
  omega

/-- The differences that occur are shifted unsigned numbers, so only the
upper comparisons decide. -/
theorem encodeDifference_of_positive {diffaddr : BitVec 32} (positive : diffaddr.toNat < 2 ^ 31) :
    encodeDifference diffaddr =
      if diffaddr.toNat < 32 then [0x09, six diffaddr 0]
      else if diffaddr.toNat < 2048 then [0x0b, six diffaddr 6, six diffaddr 0]
      else if diffaddr.toNat < 131072 then
        [0x0d, six diffaddr 12, six diffaddr 6, six diffaddr 0]
      else if diffaddr.toNat < 8388608 then
        [0x0f, six diffaddr 18, six diffaddr 12, six diffaddr 6, six diffaddr 0]
      else [] := by
  unfold encodeDifference
  rw [sle_of_negative positive (by decide), sle_of_negative positive (by decide),
    sle_of_negative positive (by decide), sle_of_negative positive (by decide),
    slt_of_positive positive (by decide), slt_of_positive positive (by decide),
    slt_of_positive positive (by decide), slt_of_positive positive (by decide)]
  simp

/-- Each difference form moves the address by the difference. -/
theorem encodeDifference_spells {decoder : Decoder} (ready : decoder.Ready) {diffaddr : BitVec 32}
    (positive : diffaddr.toNat < 2 ^ 31) (some : encodeDifference diffaddr ≠ []) :
    (∃ after, decoder.Spells (encodeDifference diffaddr) (.moveAddress diffaddr) 0 after ∧
      decoder.Kept after) ∧
    ((encodeDifference diffaddr).length = 2 ∧ diffaddr.toNat < 2 ^ 5 ∨
      (encodeDifference diffaddr).length = 3 ∧ diffaddr.toNat < 2 ^ 11 ∨
      (encodeDifference diffaddr).length = 4 ∧ diffaddr.toNat < 2 ^ 17 ∨
      (encodeDifference diffaddr).length = 5 ∧ diffaddr.toNat < 2 ^ 23) := by
  rw [encodeDifference_of_positive positive] at some ⊢
  split
  · next near =>
      refine ⟨ready.spells_relative rfl rfl rfl rfl fun word slots => ?_, .inl ⟨rfl, near⟩⟩
      rw [nextAddr_09 (slots 0 (by simp)), slots 1 (by simp)]
      simp only [List.getElem_cons_succ, List.getElem_cons_zero]
      rw [six_one]
      exact signed_piece 5 (by decide) near
  split
  · next near =>
      refine ⟨ready.spells_relative rfl rfl rfl rfl fun word slots => ?_, .inr (.inl ⟨rfl, near⟩)⟩
      rw [nextAddr_0b (slots 0 (by simp)), slots 1 (by simp), slots 2 (by simp)]
      simp only [List.getElem_cons_succ, List.getElem_cons_zero]
      rw [six_two]
      exact signed_piece 11 (by decide) near
  split
  · next near =>
      refine ⟨ready.spells_relative rfl rfl rfl rfl fun word slots => ?_,
        .inr (.inr (.inl ⟨rfl, near⟩))⟩
      rw [nextAddr_0d (slots 0 (by simp)), slots 1 (by simp), slots 2 (by simp),
        slots 3 (by simp)]
      simp only [List.getElem_cons_succ, List.getElem_cons_zero]
      rw [six_three]
      exact signed_piece 17 (by decide) near
  split
  · next near =>
      refine ⟨ready.spells_relative rfl rfl rfl rfl fun word slots => ?_,
        .inr (.inr (.inr ⟨rfl, near⟩))⟩
      rw [nextAddr_0f (slots 0 (by simp)), slots 1 (by simp), slots 2 (by simp),
        slots 3 (by simp), slots 4 (by simp)]
      simp only [List.getElem_cons_succ, List.getElem_cons_zero]
      rw [six_four]
      exact signed_piece 23 (by decide) near
  next far two three four =>
    rw [if_neg far, if_neg two, if_neg three, if_neg four] at some
    exact absurd rfl some

/-- What an address codeword is: absolute, or relative to the address the host
remembers. -/
def Reaches (bus : TtyBus) (a : BitVec 32) (command : Command) : Prop :=
  command = .setAddress (a >>> 2) ∨
    ∃ offset, command = .moveAddress offset ∧ bus.addrSet = true ∧ bus.lastaddr ≠ 0 ∧
      bus.lastaddr >>> 2 + offset = a >>> 2

theorem shiftRight_toNat (a : BitVec 32) : (a >>> 2).toNat = a.toNat / 4 := by
  rw [BitVec.toNat_ushiftRight, Nat.shiftRight_eq_div_pow]

theorem aligned_iff {a : BitVec 32} : a &&& 3 = 0 ↔ a.toNat % 4 = 0 := by
  rw [← BitVec.toNat_inj, BitVec.toNat_and]
  exact iff_of_eq (congrArg (· = 0) (Nat.and_two_pow_sub_one_eq_mod a.toNat 2))

/-- The host only relies on the device's address where no wrap is between:
when the address remembered is above the one asked for, or 0, the absolute
form is never the longer one. -/
theorem encodeAbsolute_difference {decoder : Decoder} (ready : decoder.Ready) {bus : TtyBus}
    {a : BitVec 32} (set : bus.addrSet = true) (aligned : a &&& 3 = 0)
    (lastAligned : bus.lastaddr &&& 3 = 0) :
    ∃ command after, bus.Reaches a command ∧
      decoder.Spells (encodeAbsolute (a >>> 2) (encodeDifference ((a - bus.lastaddr) >>> 2)))
        command 0 after ∧ decoder.Kept after := by
  have positive : ((a - bus.lastaddr) >>> 2).toNat < 2 ^ 31 := by
    rw [shiftRight_toNat]
    have := (a - bus.lastaddr).isLt
    omega
  rcases encodeAbsolute_spells ready (a >>> 2) (encodeDifference ((a - bus.lastaddr) >>> 2)) with
    ⟨after, spells, kept⟩ | ⟨chosen, some, above⟩
  · exact ⟨_, after, .inl rfl, spells, kept⟩
  obtain ⟨⟨after, spells, kept⟩, sizes⟩ := encodeDifference_spells ready positive some
  have less : ((a - bus.lastaddr) >>> 2).toNat < (a >>> 2).toNat := by
    rcases sizes with ⟨size, near⟩ | ⟨size, near⟩ | ⟨size, near⟩ | ⟨size, near⟩
    · have := above.1 (by omega)
      omega
    · have := above.2.1 (by omega)
      omega
    · have := above.2.2.1 (by omega)
      omega
    · have := above.2.2.2 (by omega)
      omega
  rw [chosen]
  refine ⟨_, after, .inr ⟨_, rfl, set, ?_, ?_⟩, spells, kept⟩
  · intro zero
    rw [zero, show a - 0 = a from BitVec.sub_zero a] at less
    exact Nat.lt_irrefl _ less
  · rw [shiftRight_toNat, shiftRight_toNat, BitVec.toNat_sub] at less
    have first := aligned_iff.mp aligned
    have second := aligned_iff.mp lastAligned
    have := bus.lastaddr.isLt
    have := a.isLt
    apply BitVec.eq_of_toNat_eq
    rw [BitVec.toNat_add, shiftRight_toNat, shiftRight_toNat, shiftRight_toNat, BitVec.toNat_sub]
    omega

/-- `encode_address` sends nothing, or one codeword that reaches the word
asked for. -/
theorem encodeAddress_spells {decoder : Decoder} (ready : decoder.Ready) (bus : TtyBus)
    {a : BitVec 32} (aligned : a &&& 3 = 0)
    (lastAligned : bus.addrSet = true → bus.lastaddr &&& 3 = 0) :
    ∃ rdaddr chars, bus.encodeAddress a = some ({ bus with rdaddr }, chars) ∧
      (chars = [] ∧ (bus.addrSet = true ∧ a = bus.lastaddr) ∨
        ¬ (bus.addrSet = true ∧ a = bus.lastaddr) ∧
          ∃ command after, bus.Reaches a command ∧ decoder.Spells chars command 0 after ∧
            decoder.Kept after) := by
  unfold encodeAddress
  rw [if_neg (fun unaligned => unaligned aligned)]
  split
  · next same => exact ⟨bus.rdaddr, [], rfl, .inl ⟨rfl, same⟩⟩
  · next elsewhere =>
      refine ⟨0, _, rfl, .inr ⟨elsewhere, ?_⟩⟩
      split
      · next set => exact encodeAbsolute_difference ready set aligned (lastAligned set)
      · rcases encodeAbsolute_spells ready (a >>> 2) [] with ⟨after, spells, kept⟩ | ⟨-, some, -⟩
        · exact ⟨_, after, .inl rfl, spells, kept⟩
        · exact absurd rfl some

/-! ### `readcmd` -/

theorem extract_34_1 (word : Word) : word.extractLsb' 34 1 = (slot word 0).extractLsb' 4 1 := by
  ext position inside
  simp [slot]
  grind

theorem nextLen_short {word : Word} (short : (slot word 0).extractLsb' 4 1 = 0) :
    Decompress.nextLen word = 1 + ((slot word 0).extractLsb' 1 3).setWidth 10 := by
  rw [Decompress.nextLen, extract_34_1, if_pos short, extract_31_3]

theorem nextLen_long {word : Word} (long : (slot word 0).extractLsb' 4 1 = 1) :
    Decompress.nextLen word = 9 + ((slot word 0).extractLsb' 1 3 ++ slot word 1).setWidth 10 := by
  rw [Decompress.nextLen, extract_34_1, if_neg (by rw [long]; decide), extract_31_3, extract_24_6]

/-- The read command whose code is not taken by the end of writes. -/
theorem readChars_spells {decoder : Decoder} (ready : decoder.Ready) {inc : Bool} {len : Nat}
    (some : 0 < len) (inside : len < 520) (other : ¬ (inc = false ∧ len = 8)) :
    ∃ last after, decoder.Spells (readChars inc len) (.read inc (BitVec.ofNat 10 len)) last after ∧
      decoder.Kept after ∧ last ≠ 0b01 := by
  unfold readChars
  split
  · next short =>
      have facts : ∀ inc : Bool, ∀ k < 8, ¬ (inc = false ∧ k = 7) →
          let first : Six := 0x20 + (BitVec.ofNat 6 (k % 8) <<< 1) + incBit inc
          codwordLen first = 1 ∧ first.extractLsb' 3 3 ≠ 0b011 ∧ first.extractLsb' 5 1 = 1 ∧
            first ≠ 0x2e ∧ first.extractLsb' 4 1 = 0 ∧ first.extractLsb' 4 2 ≠ 0b01 ∧
            (first.extractLsb' 0 1).getLsbD 0 = inc ∧
            1 + (first.extractLsb' 1 3).setWidth 10 = BitVec.ofNat 10 (k + 1) := by
        decide
      obtain ⟨size, notRaw, code, notEow, one, last, flag, held⟩ :=
        facts inc (len - 1) (by omega) (fun both => other ⟨both.1, by omega⟩)
      obtain ⟨after, spells, kept⟩ := ready.spells _ [] (by rw [size]; rfl) notRaw
        (.read inc (BitVec.ofNat 10 len)) (fun word keeper _ _ slots => by
          have head := slots 0 (by simp)
          rw [List.getElem_cons_zero] at head
          rw [Decoder.expand, unpack_read (by rw [head, code]) (by rw [head]; exact notEow),
            decode_read, nextLen_short (by rw [head, one]), head, flag, held,
            Nat.sub_add_cancel some])
      exact ⟨_, after, spells, kept, last⟩
  · next long =>
      have facts : ∀ inc : Bool, ∀ n < 16,
          let first : Six := 0x30 + (BitVec.ofNat 6 n &&& 0x0e) + incBit inc
          codwordLen first = 2 ∧ first.extractLsb' 3 3 ≠ 0b011 ∧ first.extractLsb' 5 1 = 1 ∧
            first ≠ 0x2e ∧ first.extractLsb' 4 1 = 1 ∧ first.extractLsb' 4 2 ≠ 0b01 ∧
            (first.extractLsb' 0 1).getLsbD 0 = inc ∧
            first.extractLsb' 1 3 = BitVec.ofNat 3 (n / 2) := by
        decide
      obtain ⟨size, notRaw, code, notEow, one, last, flag, held⟩ :=
        facts inc ((len - 9) / 32) (by omega)
      have sum : 9 + (BitVec.ofNat 3 ((len - 9) / 32 / 2) ++
          BitVec.ofNat 6 ((len - 9) % 64)).setWidth 10 = BitVec.ofNat 10 len := by
        apply BitVec.eq_of_toNat_eq
        rw [BitVec.toNat_add, BitVec.toNat_setWidth, BitVec.toNat_append, BitVec.toNat_ofNat,
          BitVec.toNat_ofNat, BitVec.toNat_ofNat, ← Nat.shiftLeft_add_eq_or_of_lt (by omega),
          Nat.shiftLeft_eq]
        simp
        omega
      obtain ⟨after, spells, kept⟩ := ready.spells _ [BitVec.ofNat 6 ((len - 9) % 64)]
        (by rw [size]; rfl) notRaw
        (.read inc (BitVec.ofNat 10 len)) (fun word keeper _ _ slots => by
          have head := slots 0 (by simp)
          have next := slots 1 (by simp)
          rw [List.getElem_cons_zero] at head
          rw [List.getElem_cons_succ, List.getElem_cons_zero] at next
          rw [Decoder.expand, unpack_read (by rw [head, code]) (by rw [head]; exact notEow),
            decode_read, nextLen_long (by rw [head, one]), head, next, flag, held, sum])
      exact ⟨_, after, spells, kept, last⟩

/-- Eight reads of one address: the character is the end of writes. -/
theorem readChars_eight_spells {decoder : Decoder} (ready : decoder.Ready) :
    ∃ after, decoder.Spells (readChars false 8) .endOfWrites 0b10 after ∧ decoder.Kept after := by
  have form : readChars false 8 = [0x2e] := by decide
  rw [form]
  refine ready.spells 0x2e [] rfl (by decide) _ fun word keeper _ _ slots => ?_
  have head : slot word 0 = 0x2e := slots 0 (by simp)
  rw [Decoder.expand, unpack_whole (.inr (.inr head)), decode_endOfWrites head]

end TtyBus

/-- A newline between codewords is the end of writes if the last one was a
write, and nothing otherwise. -/
theorem Decoder.feed_newline (decoder : Decoder) :
    decoder.Kept (decoder.feed newline) ∧ (decoder.feed newline).lastcw ≠ 0b01 ∧
      (decoder.emit newline).map decode =
        if decoder.lastcw = 1#2 then [.endOfWrites] else [] := by
  by_cases writes : decoder.lastcw = 1#2
  · have word : decoder.completes newline = some (setSlot decoder.shiftreg 0 0x2e) := by
      simp [Decoder.completes, writes]
    have head : slot (setSlot decoder.shiftreg 0 0x2e) 0 = 0x2e := by
      rw [slot_setSlot _ _ (by decide) (by decide), if_pos rfl]
    have three : (setSlot decoder.shiftreg 0 0x2e).extractLsb' 33 3 ≠ 0b011 := by
      rw [extract_33_3, head]
      decide
    have collected : decoder.collect newline = { decoder with rLen := 0, cwLen := 0 } := by
      simp [Decoder.collect, writes]
    rw [Decoder.feed, Decoder.emit, word, collected]
    refine ⟨⟨Decoder.pass_ready _ _, if_neg three, ?_⟩, ?_, ?_⟩
    · intro index other
      exact Function.update_of_ne other _ _
    · change (setSlot decoder.shiftreg 0 0x2e).extractLsb' 34 2 ≠ 0b01
      rw [extract_34_2, head]
      decide
    · rw [if_pos writes, List.map_singleton, Decoder.expand, unpack_whole (.inr (.inr head)),
        decode_endOfWrites head]
  · have none : decoder.completes newline = none := by
      simp [Decoder.completes, writes]
    rw [Decoder.feed, Decoder.emit, none, if_neg writes]
    refine ⟨⟨?_, ?_, ?_⟩, ?_, rfl⟩
    · constructor <;> simp [Decoder.collect, writes]
    · simp [Decoder.collect, writes]
    · intro index _
      simp [Decoder.collect, writes]
    · simp [Decoder.collect, writes]

/-- After anything but a write a newline is not heard. -/
theorem Decoder.hears_newline {decoder : Decoder} (other : decoder.lastcw ≠ 1#2) :
    ∃ after, decoder.Hears [newline] [] after ∧ decoder.Kept after := by
  obtain ⟨kept, -, heard⟩ := decoder.feed_newline
  refine ⟨decoder.feed newline, ⟨rfl, ?_⟩, kept⟩
  rw [if_neg other] at heard
  simpa [observed] using heard

/-! ### Writes -/

namespace TtyBus

/-- The code of a write: two bits of its operand, the increment and the form. -/
def writeCode (top : Six) (p : Bool) (form : Six) : Six := ((top &&& 3) <<< 1) + incBit p + form

theorem writeCode_fields (top : Six) (p : Bool) :
    (codwordLen (writeCode top p 0x10) = 2 ∧ (writeCode top p 0x10).extractLsb' 3 3 = 0b010 ∧
      (writeCode top p 0x10).extractLsb' 4 2 = 0b01 ∧
      ((writeCode top p 0x10).extractLsb' 0 1).getLsbD 0 = p ∧
      (writeCode top p 0x10).extractLsb' 1 2 = top.setWidth 2) ∧
    (codwordLen (writeCode top p 0x18) = 6 ∧ (writeCode top p 0x18).extractLsb' 3 3 = 0b011 ∧
      (writeCode top p 0x18).extractLsb' 4 2 = 0b01 ∧
      ((writeCode top p 0x18).extractLsb' 0 1).getLsbD 0 = p ∧
      (writeCode top p 0x18).extractLsb' 1 2 = top.setWidth 2) := by
  revert top p
  decide

/-- A reference into the table, at distance `caddr`. -/
theorem reference_spells {decoder : Decoder} (ready : decoder.Ready) (p : Bool) {caddr : BitVec 8}
    (distant : caddr ≠ 0) :
    ∃ after, decoder.Spells
        [writeCode (six (caddr.setWidth 32) 6) p 0x10, six (caddr.setWidth 32) 0]
        (.write p (decoder.compressionTbl (decoder.wrAddr - caddr))) 0b01 after ∧
      decoder.Kept after := by
  obtain ⟨size, three, last, flag, top⟩ := (writeCode_fields (six (caddr.setWidth 32) 6) p).1
  rw [← last]
  refine ready.spells _ _ (by rw [size]; rfl) (by rw [three]; decide) _
    fun word keeper wrAddr table slots => ?_
  have head := slots 0 (by simp)
  have next := slots 1 (by simp)
  simp only [List.getElem_cons_succ, List.getElem_cons_zero] at head next
  have index : word.extractLsb' 31 2 ++ word.extractLsb' 24 6 = caddr := by
    rw [extract_31_2, extract_24_6, head, next, top]
    ext position inside
    simp [six]
    grind
  have different : decoder.wrAddr - caddr ≠ decoder.wrAddr := by
    intro same
    apply distant
    grind
  rw [Decoder.expand, unpack_table (by rw [head, three]), decode_write, head, flag, index, wrAddr,
    Decoder.pass]
  change Command.write p (Function.update keeper.compressionTbl keeper.wrAddr _ _) = _
  rw [wrAddr, Function.update_of_ne different, table]

theorem raw_codData {word : Word} {val : BitVec 32} (top : (slot word 0).extractLsb' 1 2 =
    val.extractLsb' 30 2) (low : word.extractLsb' 0 30 = val.setWidth 30) : codData word = val := by
  rw [codData, extract_31_2, top, low]
  ext position inside
  simp
  grind

/-- A raw write, entered into the table. -/
theorem raw_spells {decoder : Decoder} (ready : decoder.Ready) (p : Bool) (val : BitVec 32) :
    ∃ after, decoder.Spells [writeCode (six val 30) p 0x18, six val 24, six val 18, six val 12,
        six val 6, six val 0] (.write p val) 0b01 after ∧
      after.Ready ∧ after.wrAddr = decoder.wrAddr + 1 ∧
      after.compressionTbl = Function.update decoder.compressionTbl decoder.wrAddr val := by
  obtain ⟨size, three, last, flag, top⟩ := (writeCode_fields (six val 30) p).2
  obtain ⟨word, held, fed, words, wrAddr, table, slots⟩ :=
    decoder.feed_codeword ready.rLen ready.cwLen (writeCode (six val 30) p 0x18)
      [six val 24, six val 18, six val 12, six val 6, six val 0] (by rw [size]; rfl)
  have head : slot word 0 = writeCode (six val 30) p 0x18 := slots 0 (by simp)
  have low : word.extractLsb' 0 30 = val.setWidth 30 := by
    rw [extract_0_30, slots 1 (by simp), slots 2 (by simp), slots 3 (by simp), slots 4 (by simp),
      slots 5 (by simp)]
    exact six_five val
  have code : word.extractLsb' 33 3 = 0b011 := by rw [extract_33_3, head, three]
  have data : codData word = val := by
    apply raw_codData _ low
    rw [head, top]
    ext position inside
    simp [six]
  have bit : word.getLsbD 30 = p := by
    rw [← flag, ← head, ← extract_30_1]
    simp
  have meaning : decode word = .write p val := by
    rw [decode, if_neg (extract_32_4_ne _ (by rw [code]; decide)), if_neg (by rw [code]; decide),
      if_pos (by rw [extract_34_2_eq, code]; decide), data, bit]
  refine ⟨held.pass word, ⟨fed, ?_, ?_⟩, held.pass_ready word, ?_, ?_⟩
  · rw [words, List.map_singleton, Decoder.expand,
      unpack_whole (.inl (by rw [← extract_33_3, code])), meaning]
  · change word.extractLsb' 34 2 = _
    rw [extract_34_2, head, last]
  · change (if word.extractLsb' 33 3 = 0b011 then held.wrAddr + 1 else held.wrAddr) = _
    rw [if_pos code, wrAddr]
  · change Function.update held.compressionTbl held.wrAddr (codData word) = _
    rw [wrAddr, table, data]

end TtyBus

end ZipVersa.DebugBus
