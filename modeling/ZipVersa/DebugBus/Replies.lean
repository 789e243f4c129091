import ZipVersa.DebugBus.Exec
import ZipVersa.DebugBus.ReadWord

/-! The codewords of the return path as `readword` takes them: what each does
to the host, and what a whole sequence of them makes it return. -/

set_option autoImplicit false

namespace ZipVersa.DebugBus

open Lib

/-! ### Codewords by their first six bits -/

/-- `w_len` of a codeword that starts with `first`. -/
def sixLen (first : Six) : BitVec 3 :=
  if first.extractLsb' 3 3 = 0 then 1
  else if first.extractLsb' 2 4 = 2 then 6
  else if first.extractLsb' 2 4 = 3 then 2 + (first.extractLsb' 0 2).setWidth 3
  else if first.extractLsb' 4 2 = 1 then 2
  else if first.extractLsb' 4 2 = 2 then 1
  else 6

theorem codeword_high (first : Six) (rest : BitVec 30) (start len : Nat) :
    (codeword first rest).extractLsb' (30 + start) len = first.extractLsb' start len := by
  ext i inside
  rw [BitVec.getElem_extractLsb', BitVec.getElem_extractLsb', codeword_getLsbD, if_neg (by omega)]
  congr 1
  omega

theorem codeword_low (first : Six) (rest : BitVec 30) :
    (codeword first rest).extractLsb' 0 30 = rest := by
  ext i inside
  rw [BitVec.getElem_extractLsb', codeword_getLsbD, if_pos (by omega), Nat.zero_add,
    BitVec.getLsbD_eq_getElem]

theorem wLen_codeword (first : Six) (rest : BitVec 30) : wLen (codeword first rest) = sixLen first := by
  have kind := codeword_high first rest 3 3
  have four := codeword_high first rest 2 4
  have two := codeword_high first rest 4 2
  have low := codeword_high first rest 0 2
  simp only [Nat.reduceAdd] at kind four two low
  rw [wLen, kind, four, two, low]
  rfl

theorem spell_codeword (first : Six) (rest : BitVec 30) :
    spell (codeword first rest) = first :: (pieces rest).take ((sixLen first).toNat - 1) := by
  have high := codeword_high first rest 0 6
  rw [Nat.add_zero] at high
  rw [spell, wLen_codeword, high, codeword_low]
  congr 1
  simp

/-! ### What leaves `wbuexec` and `wbuidleint` -/

/-- The codewords of the return path but for errors and resets. -/
inductive Outgoing where
  | address (addr : BitVec 32)
  | data (inc : Bool) (value : BitVec 32)
  | ack (value : BitVec 32)
  | idle
  | busy
  | interrupt
  deriving DecidableEq, Repr

namespace Outgoing

def word : Outgoing → Word
  | address addr => Exec.addressWord addr
  | data inc value => Exec.readData inc value
  | ack value => Exec.report 2 value
  | idle => codeword 0 0
  | busy => codeword 1 0
  | interrupt => codeword 4 0

/-- The first codeword that is an address comes before all data. -/
def addressFirst : List Outgoing → Bool
  | [] => true
  | address _ :: _ => true
  | data _ _ :: _ => false
  | _ :: rest => addressFirst rest

/-- The data words, each with the address `m_lastaddr` stands for after it. -/
def readings (lastaddr : BitVec 32) : List Outgoing → List (BitVec 32 × BitVec 32)
  | [] => []
  | address addr :: rest => readings (4 * addr) rest
  | data inc value :: rest =>
      (value, lastaddr + if inc then 4 else 0) :: readings (lastaddr + if inc then 4 else 0) rest
  | _ :: rest => readings lastaddr rest

end Outgoing

/-! ### Addresses -/

/-- A value in `count` six-bit digits. -/
def digits (x : BitVec 32) (count : Nat) : List Six :=
  (List.range count).map fun i => x.extractLsb' (6 * (count - 1 - i)) 6

/-- The pieces of a codeword that holds the digits from the top. -/
theorem pieces_digits {rest : BitVec 30} {x : BitVec 32} {count : Nat} (inside : count < 5)
    (slice : ∀ k ≤ 6 * count, rest.extractLsb' (24 - 6 * count + k) 6 = x.extractLsb' k 6) :
    (pieces rest).take (count + 1) = digits x (count + 1) := by
  have listed : pieces rest = (List.range 5).map fun i => rest.extractLsb' (6 * (4 - i)) 6 := rfl
  rw [listed, ← List.map_take, List.take_range, Nat.min_eq_left (by omega), digits]
  refine List.map_congr_left fun i member => ?_
  have early := List.mem_range.mp member
  rw [← slice _ (by omega)]
  congr 1
  omega

theorem pieces_low (x : BitVec 32) : (pieces (x.extractLsb' 0 30)).take 5 = digits x 5 := by
  refine pieces_digits (by decide) fun k low => ?_
  ext i small
  rw [BitVec.getElem_extractLsb', BitVec.getElem_extractLsb', BitVec.getLsbD_extractLsb',
    decide_eq_true (by omega), Bool.true_and]
  congr 1
  omega

theorem addressWord_eq (addr : BitVec 32) :
    Exec.addressWord addr =
      codeword ((2 : BitVec 4) ++ addr.extractLsb' 30 2) (addr.extractLsb' 0 30) := by
  apply BitVec.eq_of_getLsbD_eq
  intro i inside
  rw [codeword_getLsbD]
  change ((2 : BitVec 4) ++ addr).getLsbD i = _
  rw [BitVec.getLsbD_append, BitVec.getLsbD_append]
  by_cases low : i < 30
  · simp [low, show i < 32 by omega]
  · by_cases top : i < 32
    · simp [low, top, show i - 30 < 2 by omega, show 30 + (i - 30) = i by omega]
    · simp [low, top, show ¬ i - 30 < 2 by omega, show i - 30 - 2 = i - 32 by omega]

theorem addressWord_slice (addr : BitVec 32) {start len : Nat} (inside : start + len ≤ 32) :
    (Exec.addressWord addr).extractLsb' start len = addr.extractLsb' start len := by
  ext i small
  rw [BitVec.getElem_extractLsb', BitVec.getElem_extractLsb', Exec.addressWord]
  erw [BitVec.getLsbD_append]
  rw [if_pos (by omega)]

theorem six_masked (value : Six) : value.setWidth 32 &&& (0x03f : BitVec 32) = value.setWidth 32 := by
  revert value
  decide

/-- With nothing above, six bits are all that is left. -/
theorem shifted_eq {x : BitVec 32} {k : Nat} (above : x >>> (k + 6) = 0) :
    x >>> k = (x.extractLsb' k 6).setWidth 32 := by
  rw [← Host.shift_in, above, six_masked]
  simp

theorem shifted_zero {x : BitVec 32} {k : Nat} (above : x >>> (k + 6) = 0)
    (digit : x.extractLsb' k 6 = 0) : x >>> k = 0 := by
  rw [shifted_eq above, digit]
  rfl

theorem padded_slice (addr : BitVec 32) {m z k : Nat} (inside : k + 6 ≤ m) :
    (addr.extractLsb' 0 m ++ (0 : BitVec z)).extractLsb' (z + k) 6 = addr.extractLsb' k 6 := by
  ext i small
  rw [BitVec.getElem_extractLsb', BitVec.getElem_extractLsb', BitVec.getLsbD_append,
    if_neg (by omega), BitVec.getLsbD_extractLsb', decide_eq_true (by omega), Bool.true_and]
  congr 1
  omega

/-- A short address: its number of digits follows the first six bits. -/
def shortAddress (addr : BitVec 32) (count : Nat) : Word :=
  match count with
  | 0 => codeword 0xc (addr.extractLsb' 0 6 ++ (0 : BitVec 24))
  | 1 => codeword 0xd (addr.extractLsb' 0 12 ++ (0 : BitVec 18))
  | 2 => codeword 0xe (addr.extractLsb' 0 18 ++ (0 : BitVec 12))
  | _ => codeword 0xf (addr.extractLsb' 0 24 ++ (0 : BitVec 6))

theorem squeeze_address (addr : BitVec 32) :
    Compress.squeeze (Exec.addressWord addr) = Exec.addressWord addr ∨
      ∃ count < 4, Compress.squeeze (Exec.addressWord addr) = shortAddress addr count ∧
        addr >>> (6 * (count + 1)) = 0 := by
  have tag : (Exec.addressWord addr).extractLsb' 32 4 = 2 := by
    have := codeword_high ((2 : BitVec 4) ++ addr.extractLsb' 30 2) (addr.extractLsb' 0 30) 2 4
    rw [← addressWord_eq] at this
    refine this.trans ?_
    generalize addr.extractLsb' 30 2 = top
    revert top
    decide
  rw [Compress.squeeze, if_neg (by rw [tag]; decide)]
  simp only [addressWord_slice, Nat.reduceAdd, Nat.reduceLeDiff]
  split
  · exact .inl rfl
  next top =>
  refine .inr ?_
  have above : addr >>> 24 = 0 := by
    apply BitVec.eq_of_getLsbD_eq
    intro i inside
    have bit := congrArg (fun bits => bits.getLsbD i) (Decidable.not_not.mp top)
    simp only [BitVec.getLsbD_extractLsb'] at bit
    by_cases small : i < 8
    · simpa [small] using bit
    · rw [BitVec.getLsbD_ushiftRight, BitVec.getLsbD_of_ge _ _ (by omega)]
      simp
  split
  · exact ⟨3, by decide, rfl, above⟩
  next third =>
  have above := shifted_zero above (Decidable.not_not.mp third)
  split
  · exact ⟨2, by decide, rfl, above⟩
  next second =>
  have above := shifted_zero above (Decidable.not_not.mp second)
  split
  · exact ⟨1, by decide, rfl, above⟩
  next first =>
  exact ⟨0, by decide, rfl, shifted_zero above (Decidable.not_not.mp first)⟩

theorem spell_shortAddress (addr : BitVec 32) {count : Nat} (inside : count < 4) :
    spell (shortAddress addr count) =
      (0xc + BitVec.ofNat 6 count) :: digits addr (count + 1) := by
  have each : count = 0 ∨ count = 1 ∨ count = 2 ∨ count = 3 := by omega
  obtain rfl | rfl | rfl | rfl := each
  all_goals
    refine (spell_codeword _ _).trans (congrArg (List.cons _) (pieces_digits (by decide) ?_))
    intro k low
    exact padded_slice addr (by omega)

/-! ### One codeword after another -/

namespace Host

/-- The host still has its table. -/
structure Keeps (host next : Host) : Prop where
  readtbl : next.bus.readtbl = host.bus.readtbl
  rdaddr : next.bus.rdaddr = host.bus.rdaddr

variable {host : Host} {more : List Byte}

/-- Codewords of one character that `readword` passes over. -/
theorem reads_short {first : Six} (small : first < 6) (good : first ≠ 3 ∧ first ≠ 5)
    (rest : BitVec 30)
    (chars : host.port.flatten = (spell (codeword first rest)).map charenc ++ more)
    (val : BitVec 32) :
    ∃ next : Host, host.readLoop val = next.readLoop val ∧ host.Keeps next ∧
      next.bus.lastaddr = host.bus.lastaddr ∧ next.port.flatten = more := by
  have one : ∀ first : Six, first < 6 → (sixLen first).toNat - 1 = 0 := by decide
  rw [spell_codeword, one first small] at chars
  obtain ⟨next, loop, bus, _, left⟩ := readLoop_first chars val
  rw [loop, dispatch, if_pos small, if_neg (not_or.mpr good)]
  split
  · exact ⟨_, rfl, ⟨by rw [bus], by rw [bus]⟩, by rw [bus], left⟩
  · exact ⟨_, rfl, ⟨by rw [bus], by rw [bus]⟩, by rw [bus], left⟩

/-- The digits that follow the first character of a codeword. -/
theorem await_digits {next : Host} {x : BitVec 32} {count : Nat} (positive : 0 < count)
    (chars : next.port.flatten = (digits x count).map charenc ++ more) :
    ∃ last : Host, next.await 1 (count + 1) = some last ∧ last.bus = next.bus ∧
      last.buf 0 = next.buf 0 ∧ last.port.flatten = more ∧
      ∀ i < count, last.code (1 + i) = (x.extractLsb' (6 * (count - 1 - i)) 6).setWidth 32 := by
  have length : (digits x count).length = count := by simp [digits]
  obtain ⟨last, came, filled, left⟩ :=
    await_codes chars (show 1 + (digits x count).length = count + 1 by omega) (by omega)
  refine ⟨last, came, filled.bus, filled.below 0 (by decide), left, fun i inside => ?_⟩
  refine code_charenc (filled.buf i _ ?_)
  simp [digits, inside]

theorem full_address (top : BitVec 2) :
    sixLen ((2 : BitVec 4) ++ top) = 6 ∧ ¬ ((2 : BitVec 4) ++ top : Six) < 6 ∧
      ((2 : BitVec 4) ++ top : Six) &&& 0x3c = 0x08 ∧
      ((2 : BitVec 4) ++ top : Six).setWidth 32 &&& (0x03 : BitVec 32) = top.setWidth 32 := by
  revert top
  decide

theorem top_bits (x : BitVec 32) : (x.extractLsb' 30 2).setWidth 32 = x >>> (6 * 5) := by
  apply BitVec.eq_of_getLsbD_eq
  intro i inside
  rw [BitVec.getLsbD_setWidth, BitVec.getLsbD_extractLsb', BitVec.getLsbD_ushiftRight]
  by_cases small : i < 2
  · simp [small, inside]
  · rw [BitVec.getLsbD_of_ge x (6 * 5 + i) (by omega), decide_eq_false small]
    simp

theorem short_address {count : Nat} (inside : count < 4) :
    ¬ (0xc + BitVec.ofNat 6 count) < 6 ∧ (0xc + BitVec.ofNat 6 count) &&& 0x3c ≠ 0x08 ∧
      (0xc + BitVec.ofNat 6 count) &&& 0x3c = 0x0c ∧
      ((0xc + BitVec.ofNat 6 count) &&& 0x03).toNat = count := by
  have each : count = 0 ∨ count = 1 ∨ count = 2 ∨ count = 3 := by omega
  obtain rfl | rfl | rfl | rfl := each <;> decide

/-- An address comes through whatever its form. -/
theorem reads_address {addr : BitVec 32}
    (chars : host.port.flatten =
      (spell (Compress.squeeze (Exec.addressWord addr))).map charenc ++ more) (val : BitVec 32) :
    ∃ next : Host, host.readLoop val = next.readLoop addr ∧ host.Keeps next ∧
      next.bus.lastaddr = addr <<< 2 ∧ next.port.flatten = more := by
  obtain full | ⟨count, inside, short, above⟩ := squeeze_address addr
  · have spelled : spell (Exec.addressWord addr) =
        ((2 : BitVec 4) ++ addr.extractLsb' 30 2) :: digits addr 5 := by
      rw [addressWord_eq, spell_codeword, (full_address _).1]
      exact congrArg (List.cons _) (pieces_low addr)
    rw [full, spelled] at chars
    obtain ⟨next, loop, bus, buf, left⟩ := readLoop_first chars val
    obtain ⟨_, large, tag, top⟩ := full_address (addr.extractLsb' 30 2)
    obtain ⟨last, came, bus', buf', left', codes⟩ := await_digits (by decide) left
    have value : last.gather (last.code 0 &&& 0x03) [1, 2, 3, 4, 5] = addr := by
      rw [code_charenc (buf'.trans buf), top, top_bits]
      exact gather_eq addr codes
    rw [loop, dispatch, if_neg large, if_pos tag, came]
    dsimp only
    rw [value]
    exact ⟨_, rfl, ⟨by rw [setAddress, bus', bus], by rw [setAddress, bus', bus]⟩, rfl, left'⟩
  · rw [short, spell_shortAddress addr inside] at chars
    obtain ⟨next, loop, bus, _, left⟩ := readLoop_first chars val
    obtain ⟨large, other, tag, size⟩ := short_address inside
    obtain ⟨last, came, bus', _, left', codes⟩ := await_digits (by omega) left
    have value : last.gather (last.code 1) (List.range' 2 count) = addr := by
      have first := codes 0 (by omega)
      have top : addr >>> (6 * count) = _ := shifted_eq above
      rw [Nat.add_zero, Nat.add_sub_cancel, Nat.sub_zero, ← top] at first
      rw [first]
      refine gather_eq addr fun i early => ?_
      have code := codes (i + 1) (by omega)
      rw [show 1 + (i + 1) = 2 + i by omega] at code
      rw [code]
      congr 3
      omega
    rw [loop, dispatch, if_neg large, if_neg other, if_pos tag, size, came]
    dsimp only
    rw [value]
    exact ⟨_, rfl, ⟨by rw [setAddress, bus', bus], by rw [setAddress, bus', bus]⟩, rfl, left'⟩

/-! ### Data -/

/-- The first character of a word in full. -/
theorem raw_first (top : BitVec 2) (inc : BitVec 1) :
    let first : Six := (7 : BitVec 3) ++ top ++ inc
    sixLen first = 6 ∧ (¬ first < 6 ∧ first &&& 0x3c ≠ 0x08 ∧ first &&& 0x3c ≠ 0x0c) ∧
      (first &&& 0x3e ≠ 0x06 ∧ first &&& 0x30 ≠ 0x10 ∧ first &&& 0x30 ≠ 0x20 ∧
        first &&& 0x38 = 0x38) ∧
      (first.setWidth 32 >>> 1) &&& (0x03 : BitVec 32) = top.setWidth 32 ∧
      first.getLsbD 0 = inc.getLsbD 0 := by
  revert top inc
  decide

/-- The first character of a reference to the youngest entry. -/
theorem last_first (inc : BitVec 1) :
    let first : Six := (3 : BitVec 5) ++ inc
    sixLen first = 1 ∧ (¬ first < 6 ∧ first &&& 0x3c ≠ 0x08 ∧ first &&& 0x3c ≠ 0x0c) ∧
      first &&& 0x3e = 0x06 ∧ first.getLsbD 0 = inc.getLsbD 0 := by
  revert inc
  decide

/-- The only character of a reference two to nine back. -/
theorem near_first (near : BitVec 3) (inc : BitVec 1) :
    let first : Six := (2 : BitVec 2) ++ near ++ inc
    sixLen first = 1 ∧ (¬ first < 6 ∧ first &&& 0x3c ≠ 0x08 ∧ first &&& 0x3c ≠ 0x0c) ∧
      (first &&& 0x3e ≠ 0x06 ∧ first &&& 0x30 ≠ 0x10 ∧ first &&& 0x30 = 0x20) ∧
      (first >>> 1) &&& 0x07 = near.setWidth 6 ∧ first.getLsbD 0 = inc.getLsbD 0 := by
  revert near inc
  decide

theorem far_first (far : BitVec 3) (inc : BitVec 1) :
    let first : Six := (1 : BitVec 2) ++ far ++ inc
    sixLen first = 2 ∧ (¬ first < 6 ∧ first &&& 0x3c ≠ 0x08 ∧ first &&& 0x3c ≠ 0x0c) ∧
      (first &&& 0x3e ≠ 0x06 ∧ first &&& 0x30 = 0x10) ∧
      (first.setWidth 32 >>> 1) &&& (0x07 : BitVec 32) = far.setWidth 32 ∧
      first.getLsbD 0 = inc.getLsbD 0 := by
  revert far inc
  decide

theorem near_index {distance : Nat} (two : 2 ≤ distance) (nine : distance < 10) :
    ((((BitVec.ofNat 10 distance).extractLsb' 0 3 - 2).setWidth 6).setWidth 32 + 2).setWidth 10 =
      BitVec.ofNat 10 distance := by
  have each : ∀ short < 10, 2 ≤ short →
      ((((BitVec.ofNat 10 short).extractLsb' 0 3 - 2).setWidth 6).setWidth 32 + 2).setWidth 10 =
        BitVec.ofNat 10 short := by decide
  exact each distance nine two

theorem far_index (index : BitVec 10) (inside : index < 512) :
    (((((index.extractLsb' 6 3).setWidth 32) <<< 6) |||
      ((index.extractLsb' 0 6).setWidth 32 &&& (0x03f : BitVec 32))) + 2 + 8).setWidth 10 =
      index + 10 := by
  have high (i : Nat) (past : 9 ≤ i) : index.getLsbD i = false :=
    Nat.testBit_lt_two_pow (Nat.lt_of_lt_of_le inside (Nat.pow_le_pow_right Nat.two_pos past))
  have whole : ((index.extractLsb' 6 3).setWidth 32) <<< 6 |||
      (index.extractLsb' 0 6).setWidth 32 = index.setWidth 32 := by
    ext i small
    rw [BitVec.getElem_or, BitVec.getElem_shiftLeft, BitVec.getElem_setWidth,
      BitVec.getElem_setWidth]
    by_cases low : i < 6
    · simp [low]
    · by_cases middle : i < 9
      · simp [low, show i - 6 < 3 by omega, show 6 + (i - 6) = i by omega]
      · simp [low, show ¬ i - 6 < 3 by omega, high i (by omega)]
  rw [six_masked, whole, BitVec.add_assoc, BitVec.setWidth_add _ _ (by decide),
    BitVec.setWidth_setWidth_of_le _ (by decide), BitVec.setWidth_eq]
  rfl

theorem dispatch_data {next : Host} {first : Six} (val : BitVec 32)
    (band : ¬ first < 6 ∧ first &&& 0x3c ≠ 0x08 ∧ first &&& 0x3c ≠ 0x0c) :
    next.dispatch val first = next.decodeWord val first := by
  rw [dispatch, if_neg band.1, if_neg band.2.1, if_neg band.2.2]

theorem readData_eq (inc : Bool) (value : BitVec 32) :
    Exec.readData inc value = codeword ((7 : BitVec 3) ++ value.extractLsb' 30 2 ++ BitVec.ofBool inc)
      (value.extractLsb' 0 30) := rfl

theorem advance_lastaddr (next : Host) {sixbits : Six} {inc : Bool} (bit : sixbits.getLsbD 0 = inc) :
    (next.advance sixbits).bus.lastaddr = next.bus.lastaddr + if inc then 4 else 0 := by
  rw [advance, bit]

/-- A word in full goes into the table. -/
theorem reads_raw {inc : Bool} {value : BitVec 32}
    (chars : host.port.flatten = (spell (Exec.readData inc value)).map charenc ++ more)
    (val : BitVec 32) :
    ∃ next : Host, host.readLoop val = .word value next ∧
      next.bus.readtbl = Function.update host.bus.readtbl host.bus.rdaddr value ∧
      next.bus.rdaddr = host.bus.rdaddr + 1 ∧
      next.bus.lastaddr = host.bus.lastaddr + (if inc then 4 else 0) ∧ next.port.flatten = more := by
  obtain ⟨size, band, tag, top, bit⟩ := raw_first (value.extractLsb' 30 2) (BitVec.ofBool inc)
  have spelled : spell (Exec.readData inc value) =
      ((7 : BitVec 3) ++ value.extractLsb' 30 2 ++ BitVec.ofBool inc) :: digits value 5 := by
    rw [readData_eq, spell_codeword, size]
    exact congrArg (List.cons _) (pieces_low value)
  rw [spelled] at chars
  obtain ⟨next, loop, bus, buf, left⟩ := readLoop_first chars val
  obtain ⟨last, came, bus', buf', left', codes⟩ := await_digits (by decide) left
  have gathered : last.gather ((last.code 0 >>> 1) &&& 0x03) [1, 2, 3, 4, 5] = value := by
    rw [code_charenc (buf'.trans buf), top, top_bits]
    exact gather_eq value codes
  have same := bus'.trans bus
  rw [loop, dispatch_data val band, decodeWord, if_neg tag.1, if_neg tag.2.1, if_neg tag.2.2.1,
    if_pos tag.2.2.2, came]
  dsimp only
  rw [rawRead, gathered]
  have inc_bit : (BitVec.ofBool inc).getLsbD 0 = inc := by cases inc <;> rfl
  refine ⟨_, rfl, by rw [← same]; rfl, by rw [← same]; rfl, ?_, left'⟩
  rw [advance_lastaddr _ (bit.trans inc_bit), ← same]

theorem tableRead_eq {next : Host} {sixbits : Six} {idx : BitVec 32} {place : BitVec 10} {inc : Bool}
    (bus : next.bus = host.bus) (index : idx.setWidth 10 = place) (bit : sixbits.getLsbD 0 = inc)
    (left : next.port.flatten = more) :
    ∃ last : Host, next.tableRead sixbits idx =
        .word (host.bus.readtbl (host.bus.rdaddr - place)) last ∧ host.Keeps last ∧
      last.bus.lastaddr = host.bus.lastaddr + (if inc then 4 else 0) ∧
      last.port.flatten = more := by
  refine ⟨next.advance sixbits, by rw [tableRead, bus, index], ⟨by rw [← bus]; rfl, by rw [← bus]; rfl⟩,
    ?_, left⟩
  rw [advance_lastaddr next bit, bus]

/-- A reference brings back the entry it names. -/
theorem reads_reference {word : Word} {distance : Nat} (positive : 0 < distance)
    (within : distance ≤ 521)
    (chars : host.port.flatten = (spell (reference distance word)).map charenc ++ more)
    (val : BitVec 32) :
    ∃ next : Host, host.readLoop val =
        .word (host.bus.readtbl (host.bus.rdaddr - BitVec.ofNat 10 distance)) next ∧
      host.Keeps next ∧
      next.bus.lastaddr =
        host.bus.lastaddr + (if (word.extractLsb' 30 1).getLsbD 0 then 4 else 0) ∧
      next.port.flatten = more := by
  unfold reference at chars
  generalize word.extractLsb' 30 1 = inc at chars ⊢
  by_cases one : distance = 1
  · obtain ⟨size, band, tag, bit⟩ := last_first inc
    rw [if_pos one, spell_codeword, size] at chars
    obtain ⟨next, loop, bus, _, left⟩ := readLoop_first chars val
    rw [loop, dispatch_data val band, decodeWord, if_pos tag]
    exact tableRead_eq bus (by rw [one]; rfl) bit left
  by_cases near : distance < 10
  · rw [if_neg one, if_pos near] at chars
    obtain ⟨size, band, tag, index, bit⟩ :=
      near_first ((BitVec.ofNat 10 distance).extractLsb' 0 3 - 2) inc
    rw [spell_codeword, size] at chars
    obtain ⟨next, loop, bus, _, left⟩ := readLoop_first chars val
    rw [loop, dispatch_data val band, decodeWord, if_neg tag.1, if_neg tag.2.1, if_pos tag.2.2]
    refine tableRead_eq bus ?_ bit left
    rw [index]
    exact near_index (by omega) near
  · rw [if_neg one, if_neg near] at chars
    generalize back : BitVec.ofNat 10 distance - 10 = index at chars
    obtain ⟨size, band, tag, top, bit⟩ := far_first (index.extractLsb' 6 3) inc
    have second : (pieces (index.extractLsb' 0 6 ++ word.extractLsb' 0 24)).take 1 =
        [index.extractLsb' 0 6] := by
      refine congrArg (fun piece => [piece]) ?_
      ext i small
      rw [BitVec.getElem_extractLsb']
      erw [BitVec.getLsbD_append]
      rw [if_neg (by omega), Nat.add_sub_cancel_left, BitVec.getLsbD_eq_getElem]
    rw [spell_codeword, size] at chars
    obtain ⟨next, loop, bus, buf, left⟩ := readLoop_first chars val
    obtain ⟨last, came, filled, left'⟩ : ∃ last, next.await 1 2 = some last ∧
        next.Filled last 1 [index.extractLsb' 0 6] ∧ last.port.flatten = more :=
      await_codes (left.trans (congrArg (fun codes => codes.map charenc ++ more) second)) rfl
        (by decide)
    have place : (((((last.code 0 >>> 1) &&& 0x07) <<< 6) ||| (last.code 1 &&& 0x03f)) + 2 + 8).setWidth
        10 = BitVec.ofNat 10 distance := by
      have low : index < 512 := by
        rw [← back, BitVec.lt_def, BitVec.toNat_sub, BitVec.toNat_ofNat]
        show (2 ^ 10 - 10 + distance % 2 ^ 10) % 2 ^ 10 < 512
        omega
      rw [code_charenc ((filled.below 0 (by decide)).trans buf), top,
        code_charenc (filled.buf 0 _ rfl), far_index index low, ← back]
      exact BitVec.sub_add_cancel _ _
    rw [loop, dispatch_data val band, decodeWord, if_neg tag.1, if_pos tag.2, came]
    exact tableRead_eq (filled.bus.trans bus) place bit left'

end Host

/-! ### Sequences of codewords -/

/-- Whole codewords with newlines between them, from the front. -/
inductive Framed : List Word → List Item → Prop where
  | nil : Framed [] []
  | newline {words : List Word} {items : List Item} :
      Framed words items → Framed words (none :: items)
  | word {words : List Word} {items : List Item} (word : Word) :
      Framed words items → Framed (word :: words) ((spell word).map some ++ items)

theorem Framed.append {first second : List Word} {items more : List Item}
    (start : Framed first items) (rest : Framed second more) :
    Framed (first ++ second) (items ++ more) := by
  induction start with
  | nil => exact rest
  | newline _ ih => exact .newline ih
  | word word _ ih =>
      rw [List.append_assoc]
      exact .word word ih

theorem Lined.framed {words : List Word} {begun : List Six} {items : List Item}
    (lined : Lined words begun items) :
    ∃ whole, items = whole ++ begun.map some ∧ Framed words whole := by
  induction lined with
  | nil => exact ⟨[], rfl, .nil⟩
  | newline _ ih =>
      obtain ⟨whole, same, framed⟩ := ih
      rw [List.map_nil, List.append_nil] at same
      have longer := framed.append (.newline .nil)
      rw [List.append_nil] at longer
      exact ⟨whole ++ [none], by rw [same]; simp, longer⟩
  | six value _ ih =>
      obtain ⟨whole, same, framed⟩ := ih
      exact ⟨whole, by rw [same]; simp, framed⟩
  | word word _ ih =>
      obtain ⟨whole, same, framed⟩ := ih
      have longer := framed.append (.word word .nil)
      rw [List.append_nil, ← same] at longer
      exact ⟨_, (List.append_nil _).symm, longer⟩

/-- A newline at the end says nothing. -/
theorem Framed.of_newline {words : List Word} {items : List Item}
    (framed : Framed words (items ++ [none])) : Framed words items := by
  generalize same : items ++ [none] = all at framed
  induction framed generalizing items with
  | nil => simp at same
  | newline framed ih =>
      cases items with
      | nil =>
          rw [List.nil_append, List.cons.injEq] at same
          rw [same.2]
          exact framed
      | cons item items =>
          rw [List.cons_append, List.cons.injEq] at same
          rw [same.1]
          exact .newline (ih same.2)
  | @word words tail word _ ih =>
      obtain rfl | ⟨front, last, rfl⟩ := tail.eq_nil_or_concat
      · have newline : none ∈ (spell word).map some := by
          rw [List.append_nil] at same
          rw [← same]
          exact List.mem_append_right _ (.head _)
        simp at newline
      · rw [List.concat_eq_append, ← List.append_assoc] at same
        obtain ⟨rfl, ends⟩ := List.append_inj' same rfl
        cases ends
        exact .word word (ih (List.concat_eq_append ..).symm)

namespace Host

/-- Successive calls of `readword` return these words, each with `m_lastaddr`
after it, and the next call waits for more characters. -/
def Returns (host : Host) : List (BitVec 32 × BitVec 32) → Prop
  | [] => host.readword = .waiting
  | (value, lastaddr) :: rest =>
      ∃ next, host.readword = .word value next ∧ next.bus.lastaddr = lastaddr ∧ next.Returns rest

/-- The same from within a call. -/
def Awaits (host : Host) (val : BitVec 32) : List (BitVec 32 × BitVec 32) → Prop
  | [] => host.readLoop val = .waiting
  | (value, lastaddr) :: rest =>
      ∃ next, host.readLoop val = .word value next ∧ next.bus.lastaddr = lastaddr ∧ next.Returns rest

theorem Awaits.returns {host : Host} {expected : List (BitVec 32 × BitVec 32)}
    (awaits : host.Awaits 0 expected) : host.Returns expected := by
  cases expected with
  | nil => exact awaits
  | cons first rest => exact awaits

theorem Awaits.of_eq {host next : Host} {val other : BitVec 32}
    {expected : List (BitVec 32 × BitVec 32)} (awaits : next.Awaits other expected)
    (same : host.readLoop val = next.readLoop other) : host.Awaits val expected := by
  cases expected with
  | nil => exact same.trans awaits
  | cons first rest =>
      obtain ⟨last, word, after⟩ := awaits
      exact ⟨last, same.trans word, after⟩

theorem squeeze_codeword {first : Six} (other : first.extractLsb' 2 4 ≠ 2) (rest : BitVec 30) :
    Compress.squeeze (codeword first rest) = codeword first rest := by
  have high := codeword_high first rest 2 4
  simp only [Nat.reduceAdd] at high
  rw [Compress.squeeze, if_pos (by rwa [high])]

theorem kind_squeeze_address (addr : BitVec 32) :
    kind (Compress.squeeze (Exec.addressWord addr)) = 1 := by
  obtain full | ⟨count, inside, short, _⟩ := squeeze_address addr
  · rw [full, addressWord_eq, kind_codeword]
    generalize addr.extractLsb' 30 2 = top
    revert top
    decide
  · rw [short]
    have each : count = 0 ∨ count = 1 ∨ count = 2 ∨ count = 3 := by omega
    obtain rfl | rfl | rfl | rfl := each <;> exact kind_codeword _ _

theorem squeeze_readData (inc : Bool) (value : BitVec 32) :
    Compress.squeeze (Exec.readData inc value) = Exec.readData inc value := by
  rw [readData_eq]
  refine squeeze_codeword ?_ _
  generalize value.extractLsb' 30 2 = top
  revert top inc
  decide

theorem kind_readData (inc : Bool) (value : BitVec 32) : kind (Exec.readData inc value) = 7 := by
  rw [readData_eq, kind_codeword]
  generalize value.extractLsb' 30 2 = top
  revert top inc
  decide

theorem data_first (top : BitVec 2) (inc : Bool) :
    ((7 : BitVec 3) ++ top ++ BitVec.ofBool inc : Six).extractLsb' 1 2 = top ∧
      (((7 : BitVec 3) ++ top ++ BitVec.ofBool inc : Six).extractLsb' 0 1).getLsbD 0 = inc := by
  revert top inc
  decide

theorem dataBits_readData (inc : Bool) (value : BitVec 32) :
    dataBits (Exec.readData inc value) = value := by
  have high := codeword_high ((7 : BitVec 3) ++ value.extractLsb' 30 2 ++ BitVec.ofBool inc)
    (value.extractLsb' 0 30) 1 2
  rw [(data_first _ _).1] at high
  rw [dataBits, readData_eq, codeword_low]
  refine (congrArg (fun bits => bits ++ value.extractLsb' 0 30) high).trans ?_
  apply BitVec.eq_of_getLsbD_eq
  intro i inside
  erw [BitVec.getLsbD_append]
  split
  · next low => simp [low]
  · next low => simp [show i - 30 < 2 by omega, show 30 + (i - 30) = i by omega]

theorem inc_readData (inc : Bool) (value : BitVec 32) :
    ((Exec.readData inc value).extractLsb' 30 1).getLsbD 0 = inc := by
  have high := codeword_high ((7 : BitVec 3) ++ value.extractLsb' 30 2 ++ BitVec.ofBool inc)
    (value.extractLsb' 0 30) 0 1
  exact (congrArg (fun bits => bits.getLsbD 0) high).trans (data_first _ _).2

/-- The host has kept the words sent in full. -/
def Knows (host : Host) (past : Option (List (BitVec 32))) : Prop :=
  ∀ entries, past = some entries → Recalls host.bus.readtbl host.bus.rdaddr entries

theorem Keeps.knows {host next : Host} {past : Option (List (BitVec 32))} (keeps : host.Keeps next)
    (knows : host.Knows past) : next.Knows past := by
  intro entries known
  rw [keeps.readtbl, keeps.rdaddr]
  exact knows entries known

/-- One data word comes out, whichever way it was sent. -/
theorem reads_data {host : Host} {inc : Bool} {value : BitVec 32} {code : Word} {more : List Byte}
    {past later : Option (List (BitVec 32))} (knows : host.Knows past) (known : past ≠ none)
    (emits : Emits past (Exec.readData inc value) code later)
    (chars : host.port.flatten = (spell code).map charenc ++ more) (val : BitVec 32) :
    ∃ next : Host, host.readLoop val = .word value next ∧ next.Knows later ∧ later ≠ none ∧
      next.bus.lastaddr = host.bus.lastaddr + (if inc then 4 else 0) ∧
      next.port.flatten = more := by
  have data := kind_readData inc value
  cases emits with
  | address address => rw [data] at address; cases address
  | other _ notData => exact absurd data notData
  | @raw entries _ _ =>
      obtain ⟨next, loop, readtbl, rdaddr, lastaddr, left⟩ := reads_raw chars val
      refine ⟨next, loop, ?_, by simp, lastaddr, left⟩
      rintro _ ⟨⟩
      rw [readtbl, rdaddr, dataBits_readData]
      exact (knows _ rfl).push value
  | @refer entries _ distance _ positive within entry =>
      obtain ⟨next, loop, keeps, lastaddr, left⟩ := reads_reference positive within chars val
      rw [inc_readData] at lastaddr
      have found := knows _ rfl (distance - 1) _ (by omega) entry
      rw [Nat.sub_add_cancel positive, dataBits_readData] at found
      exact ⟨next, by rw [loop, found], keeps.knows knows, by simp, lastaddr, left⟩
  | unknown _ => exact absurd rfl known

/-- Acknowledgements, interrupts and idle codewords are passed over. -/
theorem reads_filler {host : Host} {first : Six} {rest : BitVec 30} {code : Word}
    {more : List Byte} {past later : Option (List (BitVec 32))} (small : first < 6)
    (good : first ≠ 3 ∧ first ≠ 5)
    (emits : Emits past (Compress.squeeze (codeword first rest)) code later)
    (chars : host.port.flatten = (spell code).map charenc ++ more) (val : BitVec 32) :
    later = past ∧ ∃ next : Host, host.readLoop val = next.readLoop val ∧ host.Keeps next ∧
      next.bus.lastaddr = host.bus.lastaddr ∧ next.port.flatten = more := by
  have tags : ∀ first : Six, first < 6 → first.extractLsb' 2 4 ≠ 2 ∧ first.extractLsb' 3 3 = 0 := by
    decide
  obtain ⟨tag, zero⟩ := tags first small
  have none : kind (codeword first rest) = 0 := (kind_codeword first rest).trans zero
  rw [squeeze_codeword tag] at emits
  cases emits with
  | address address => rw [none] at address; cases address
  | other _ _ => exact ⟨rfl, reads_short small good rest chars val⟩
  | raw data => rw [none] at data; cases data
  | refer data _ _ _ => rw [none] at data; cases data
  | unknown data => rw [none] at data; cases data

/-- An address clears the table. -/
theorem emits_address {addr : BitVec 32} {code : Word} {past later : Option (List (BitVec 32))}
    (emits : Emits past (Compress.squeeze (Exec.addressWord addr)) code later) :
    code = Compress.squeeze (Exec.addressWord addr) ∧ later = some [] := by
  have one := kind_squeeze_address addr
  cases emits with
  | address _ => exact ⟨rfl, rfl⟩
  | other notAddress _ => exact absurd one notAddress
  | raw data => rw [one] at data; cases data
  | refer data _ _ _ => rw [one] at data; cases data
  | unknown data => rw [one] at data; cases data

theorem shiftLeft_two (addr : BitVec 32) : addr <<< 2 = 4 * addr := by
  rw [BitVec.shiftLeft_eq_mul_twoPow, BitVec.mul_comm]
  rfl

/-- What `readword` does with a sequence of codewords and newlines. -/
theorem awaits_readings {codes : List Word} {items : List Item} (framed : Framed codes items) :
    ∀ {host : Host} {outs : List Outgoing} {past later : Option (List (BitVec 32))},
      EmitsAll past (outs.map fun out => Compress.squeeze out.word) codes later →
      host.Knows past → (past = none → Outgoing.addressFirst outs = true) →
      host.port.flatten = items.map itemChar → ∀ val,
      host.Awaits val (Outgoing.readings host.bus.lastaddr outs) := by
  induction framed with
  | nil =>
      intro host outs past later emitsAll _ _ chars val
      cases outs with
      | nil => exact readLoop_none (await_nothing chars) val
      | cons out outs => cases emitsAll
  | newline _ ih =>
      intro host outs past later emitsAll knows opened chars val
      obtain ⟨next, skips, bus, left⟩ := await_newline chars
      rw [← bus]
      refine (ih emitsAll ?_ opened left val).of_eq (readLoop_skips skips val)
      rw [Knows, bus]
      exact knows
  | @word codes items code _ ih =>
      intro host outs past later emitsAll knows opened chars val
      have spelled : host.port.flatten = (spell code).map charenc ++ items.map itemChar := by
        rw [chars, List.map_append, List.map_map]
        rfl
      cases outs with
      | nil => cases emitsAll
      | cons out outs =>
          cases emitsAll with
          | cons emits rest =>
              dsimp only at emits
              have filler {first : Six} {low : BitVec 30} (same : out.word = codeword first low)
                  (small : first < 6) (good : first ≠ 3 ∧ first ≠ 5)
                  (closed : past = none → Outgoing.addressFirst outs = true) :
                  host.Awaits val (Outgoing.readings host.bus.lastaddr outs) := by
                rw [same] at emits
                obtain ⟨rfl, next, loop, keeps, lastaddr, left⟩ :=
                  reads_filler small good emits spelled val
                rw [← lastaddr]
                exact (ih rest (keeps.knows knows) closed left val).of_eq loop
              cases out with
              | address addr =>
                  obtain ⟨rfl, rfl⟩ := emits_address emits
                  obtain ⟨next, loop, _, lastaddr, left⟩ := reads_address spelled val
                  rw [shiftLeft_two] at lastaddr
                  rw [Outgoing.readings, ← lastaddr]
                  refine (ih rest ?_ nofun left addr).of_eq loop
                  rintro _ ⟨⟩
                  exact .nil
              | data inc value =>
                  have known : past ≠ none := fun none => by cases opened none
                  have emits := (squeeze_readData inc value) ▸ emits
                  obtain ⟨next, loop, knows, known, lastaddr, left⟩ :=
                    reads_data knows known emits spelled val
                  rw [Outgoing.readings, ← lastaddr]
                  refine ⟨next, loop, rfl, ?_⟩
                  exact (ih rest knows (fun none => absurd none known) left 0).returns
              | ack value => exact filler rfl (by decide) (by decide) opened
              | idle => exact filler rfl (by decide) (by decide) opened
              | busy => exact filler rfl (by decide) (by decide) opened
              | interrupt => exact filler rfl (by decide) (by decide) opened

end Host

end ZipVersa.DebugBus
