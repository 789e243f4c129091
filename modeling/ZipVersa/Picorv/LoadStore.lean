import ZipVersa.Board.Memdev
import ZipVersa.Board.PicoBridge
import ZipVersa.Lib.Clocked
import ZipVersa.Lib.Slices

/-! The loads and stores of the core, which go to a memory of words through the
registers of its memory interface and the bus logic, and a memory of bytes. -/

set_option autoImplicit false

namespace ZipVersa.Picorv

open Board Lib

/-! ### The byte lanes of the core -/

inductive LoadInstr where
  | lb
  | lh
  | lw
  | lbu
  | lhu
  deriving DecidableEq

inductive StoreInstr where
  | sb
  | sh
  | sw
  deriving DecidableEq

/-- `mem_wordsize`: 0, 1 and 2. -/
inductive WordSize where
  | word
  | half
  | byte
  deriving DecidableEq

def LoadInstr.memWordsize : LoadInstr → WordSize
  | .lb | .lbu => .byte
  | .lh | .lhu => .half
  | .lw => .word

def StoreInstr.memWordsize : StoreInstr → WordSize
  | .sb => .byte
  | .sh => .half
  | .sw => .word

/-- `mem_la_wdata` -/
def memLaWdata (size : WordSize) (regOp2 : BitVec 32) : BitVec 32 :=
  match size with
  | .word => regOp2
  | .half => regOp2.extractLsb' 0 16 ++ regOp2.extractLsb' 0 16
  | .byte =>
      regOp2.extractLsb' 0 8 ++ regOp2.extractLsb' 0 8 ++ regOp2.extractLsb' 0 8 ++
        regOp2.extractLsb' 0 8

/-- `mem_la_wstrb` -/
def memLaWstrb (size : WordSize) (regOp1 : BitVec 32) : BitVec 4 :=
  match size with
  | .word => 0b1111
  | .half => if regOp1.getLsbD 1 then 0b1100 else 0b0011
  | .byte => 0b0001 <<< (regOp1.extractLsb' 0 2).toNat

/-- `mem_rdata_word` -/
def memRdataWord (size : WordSize) (regOp1 memRdata : BitVec 32) : BitVec 32 :=
  match size with
  | .word => memRdata
  | .half =>
      if regOp1.getLsbD 1 then 0#16 ++ memRdata.extractLsb' 16 16
      else 0#16 ++ memRdata.extractLsb' 0 16
  | .byte =>
      if regOp1.getLsbD 1 then
        if regOp1.getLsbD 0 then 0#24 ++ memRdata.extractLsb' 24 8
        else 0#24 ++ memRdata.extractLsb' 16 8
      else
        if regOp1.getLsbD 0 then 0#24 ++ memRdata.extractLsb' 8 8
        else 0#24 ++ memRdata.extractLsb' 0 8

/-- `reg_out` in `cpu_state_ldmem`. -/
def LoadInstr.regOut (instr : LoadInstr) (memRdataWord : BitVec 32) : BitVec 32 :=
  match instr with
  | .lbu | .lhu | .lw => memRdataWord
  | .lh => (memRdataWord.extractLsb' 0 16).signExtend 32
  | .lb => (memRdataWord.extractLsb' 0 8).signExtend 32

/-- `mem_la_addr` -/
def memLaAddr (regOp1 : BitVec 32) : BitVec 32 := regOp1.extractLsb' 2 30 ++ 0#2

/-- What `CATCH_MISALIGN` lets pass. -/
def Aligned (size : WordSize) (regOp1 : BitVec 32) : Prop :=
  match size with
  | .word => regOp1.extractLsb' 0 2 = 0
  | .half => regOp1.getLsbD 0 = false
  | .byte => True

/-- A load or a store, with the address and the value in `reg_op1` and `reg_op2`. -/
inductive Access where
  | load (instr : LoadInstr) (regOp1 : BitVec 32)
  | store (instr : StoreInstr) (regOp1 regOp2 : BitVec 32)

instance (size : WordSize) (regOp1 : BitVec 32) : Decidable (Aligned size regOp1) :=
  match size with
  | .word => inferInstanceAs (Decidable (_ = _))
  | .half => inferInstanceAs (Decidable (_ = _))
  | .byte => inferInstanceAs (Decidable True)

def Access.Aligned : Access → Prop
  | .load instr regOp1 => Picorv.Aligned instr.memWordsize regOp1
  | .store instr regOp1 _ => Picorv.Aligned instr.memWordsize regOp1

instance (access : Access) : Decidable access.Aligned :=
  match access with
  | .load instr regOp1 => inferInstanceAs (Decidable (Picorv.Aligned instr.memWordsize regOp1))
  | .store instr regOp1 _ => inferInstanceAs (Decidable (Picorv.Aligned instr.memWordsize regOp1))

/-- The registers of the memory interface, and the memory that the bus leads to. -/
structure MemPort where
  request : MemRequest
  words : Words 30

/-- `mem_addr`, `mem_wdata` and `mem_wstrb`; a load leaves `mem_wdata`. -/
def MemPort.issue (port : MemPort) : Access → MemRequest
  | .load _ regOp1 => ⟨memLaAddr regOp1, port.request.wdata, 0⟩
  | .store instr regOp1 regOp2 =>
      ⟨memLaAddr regOp1, memLaWdata instr.memWordsize regOp2, memLaWstrb instr.memWordsize regOp1⟩

/-- The request as the memory sees it. -/
def wbRequest (request : BusRequest) : WbRequest 30 32 :=
  ⟨request.we, request.addr, request.data, request.sel⟩

/-- One access, up to `mem_done`. -/
def MemPort.step (port : MemPort) (access : Access) : MemPort where
  request := port.issue access
  words := port.words.serve (wbRequest (busRequest (port.issue access)))

/-- What a load puts into its register. -/
def MemPort.loads (port : MemPort) : Access → List (BitVec 32)
  | .load instr regOp1 =>
      let memRdata := port.words (busRequest (port.issue (.load instr regOp1))).addr
      [instr.regOut (memRdataWord instr.memWordsize regOp1 memRdata)]
  | .store _ _ _ => []

/-! ### A memory of bytes -/

abbrev Bytes := BitVec 32 → BitVec 8

def WordSize.bytes : WordSize → Nat
  | .word => 4
  | .half => 2
  | .byte => 1

/-- The value of a load from the bytes at its address and behind. -/
def LoadInstr.value (bytes : Bytes) (addr : BitVec 32) : LoadInstr → BitVec 32
  | .lb => (bytes addr).signExtend 32
  | .lbu => (bytes addr).setWidth 32
  | .lh => (bytes (addr + 1) ++ bytes addr).signExtend 32
  | .lhu => (bytes (addr + 1) ++ bytes addr).setWidth 32
  | .lw => bytes (addr + 3) ++ bytes (addr + 2) ++ bytes (addr + 1) ++ bytes addr

/-- The low bytes of a value, the lowest at the address. -/
def Bytes.store (bytes : Bytes) (addr : BitVec 32) (count : Nat) (value : BitVec 32) : Bytes :=
  fun place =>
    if (place - addr).toNat < count then value.extractLsb' (8 * (place - addr).toNat) 8
    else bytes place

def Access.stores (bytes : Bytes) : Access → Bytes
  | .load _ _ => bytes
  | .store instr regOp1 regOp2 => bytes.store regOp1 instr.memWordsize.bytes regOp2

def Access.values (bytes : Bytes) : Access → List (BitVec 32)
  | .load instr regOp1 => [instr.value bytes regOp1]
  | .store _ _ _ => []

/-- The place of the word that a byte is in. -/
def wordAddr (addr : BitVec 32) : BitVec 30 := addr.extractLsb' 2 30

/-- The place of a byte in its word. -/
def lane (addr : BitVec 32) : Nat := (addr.extractLsb' 0 2).toNat

/-- The bytes of a memory of words. -/
def bytesOf (words : Words 30) : Bytes := fun addr =>
  (words (wordAddr addr)).extractLsb' (8 * lane addr) 8

/-! ### Places -/

theorem lane_eq (addr : BitVec 32) : lane addr = addr.toNat % 4 := by
  rw [lane, BitVec.extractLsb'_toNat]
  rfl

theorem lane_lt (addr : BitVec 32) : lane addr < 4 := (addr.extractLsb' 0 2).isLt

theorem wordAddr_toNat (addr : BitVec 32) : (wordAddr addr).toNat = addr.toNat / 4 := by
  have bound := addr.isLt
  rw [wordAddr, BitVec.extractLsb'_toNat, Nat.shiftRight_eq_div_pow]
  omega

theorem wordAddr_inj {place addr : BitVec 32} :
    wordAddr place = wordAddr addr ↔ place.toNat / 4 = addr.toNat / 4 := by
  rw [← BitVec.toNat_inj, wordAddr_toNat, wordAddr_toNat]

/-- The bytes behind an address, up to the end of its word. -/
theorem add_inside {addr : BitVec 32} {count : Nat} (inside : lane addr + count < 4) :
    wordAddr (addr + BitVec.ofNat 32 count) = wordAddr addr ∧
      lane (addr + BitVec.ofNat 32 count) = lane addr + count := by
  have bound := addr.isLt
  rw [wordAddr_inj, lane_eq, lane_eq, BitVec.toNat_add, BitVec.toNat_ofNat]
  rw [lane_eq] at inside
  omega

/-- How far a place is behind an address, when it is among the bytes there. -/
theorem sub_lt_iff {place addr : BitVec 32} {count : Nat} (inside : lane addr + count ≤ 4) :
    (place - addr).toNat < count ↔
      wordAddr place = wordAddr addr ∧ lane addr ≤ lane place ∧
        lane place - lane addr < count := by
  have bound := addr.isLt
  have bound' := place.isLt
  rw [wordAddr_inj, lane_eq, lane_eq, BitVec.toNat_sub]
  rw [lane_eq] at inside
  omega

theorem sub_inside {place addr : BitVec 32} (same : wordAddr place = wordAddr addr)
    (behind : lane addr ≤ lane place) : (place - addr).toNat = lane place - lane addr := by
  have bound := addr.isLt
  have bound' := place.isLt
  rw [wordAddr_inj] at same
  rw [lane_eq, lane_eq] at behind ⊢
  rw [BitVec.toNat_sub]
  omega

theorem lane_bits (addr : BitVec 32) :
    lane addr = (addr.getLsbD 0).toNat + 2 * (addr.getLsbD 1).toNat := by
  rw [lane_eq, BitVec.getLsbD, BitVec.getLsbD, Nat.testBit_zero, Nat.testBit_succ, Nat.testBit_zero]
  rcases Nat.mod_two_eq_zero_or_one addr.toNat with low | low <;>
    rcases Nat.mod_two_eq_zero_or_one (addr.toNat / 2) with high | high <;>
    simp [low, high] <;> omega

theorem Aligned.lane_word {addr : BitVec 32} (aligned : Aligned .word addr) : lane addr = 0 :=
  congrArg BitVec.toNat aligned

theorem Aligned.lane_half {addr : BitVec 32} (aligned : Aligned .half addr) :
    lane addr = 2 * (addr.getLsbD 1).toNat := by
  have even : addr.getLsbD 0 = false := aligned
  rw [lane_bits, even]
  exact Nat.zero_add _

/-- An aligned access stays in its word. -/
theorem Aligned.inside {size : WordSize} {addr : BitVec 32} (aligned : Aligned size addr) :
    lane addr + size.bytes ≤ 4 := by
  cases size with
  | word =>
      rw [aligned.lane_word]
      decide
  | half =>
      rw [aligned.lane_half]
      cases addr.getLsbD 1 <;> decide
  | byte => exact lane_lt addr

theorem bytesOf_add (words : Words 30) {addr : BitVec 32} (count : Nat)
    (inside : lane addr + count < 4) :
    bytesOf words (addr + BitVec.ofNat 32 count) =
      (words (wordAddr addr)).extractLsb' (8 * (lane addr + count)) 8 := by
  obtain ⟨same, place⟩ := add_inside inside
  rw [bytesOf, same, place]

/-! ### Loads -/

/-- The byte that is addressed comes down to the lowest lane. -/
theorem memRdataWord_byte (addr word : BitVec 32) :
    memRdataWord .byte addr word = 0#24 ++ word.extractLsb' (8 * lane addr) 8 := by
  rw [lane_bits]
  cases low : addr.getLsbD 0 <;> cases high : addr.getLsbD 1 <;>
    rw [memRdataWord, low, high] <;> rfl

theorem memRdataWord_half {addr : BitVec 32} (aligned : Aligned .half addr) (word : BitVec 32) :
    memRdataWord .half addr word = 0#16 ++ word.extractLsb' (8 * lane addr) 16 := by
  rw [aligned.lane_half]
  cases high : addr.getLsbD 1 <;> rw [memRdataWord, high] <;> rfl

/-- Two bytes behind one another in a word. -/
theorem bytesOf_half (words : Words 30) {addr : BitVec 32} (inside : lane addr + 2 ≤ 4) :
    bytesOf words (addr + 1) ++ bytesOf words addr =
      (words (wordAddr addr)).extractLsb' (8 * lane addr) 16 := by
  rw [show addr + 1 = addr + BitVec.ofNat 32 1 from rfl, bytesOf_add words 1 inside]
  exact BitVec.extractLsb'_append_extractLsb'_eq_extractLsb' (by omega)

theorem bytesOf_word (words : Words 30) {addr : BitVec 32} (zero : lane addr = 0) :
    bytesOf words (addr + 3) ++ bytesOf words (addr + 2) ++ bytesOf words (addr + 1) ++
      bytesOf words addr = words (wordAddr addr) := by
  have third : bytesOf words (addr + 3) = (words (wordAddr addr)).extractLsb' 24 8 := by
    simpa [zero] using bytesOf_add words 3 (show lane addr + 3 < 4 by rw [zero]; decide)
  have second : bytesOf words (addr + 2) = (words (wordAddr addr)).extractLsb' 16 8 := by
    simpa [zero] using bytesOf_add words 2 (show lane addr + 2 < 4 by rw [zero]; decide)
  have first : bytesOf words (addr + 1) = (words (wordAddr addr)).extractLsb' 8 8 := by
    simpa [zero] using bytesOf_add words 1 (show lane addr + 1 < 4 by rw [zero]; decide)
  have lowest : bytesOf words addr = (words (wordAddr addr)).extractLsb' 0 8 := by
    rw [bytesOf, zero]
  rw [third, second, first, lowest]
  generalize words (wordAddr addr) = word
  have high : word.extractLsb' 24 8 ++ word.extractLsb' 16 8 = word.extractLsb' 16 16 :=
    BitVec.extractLsb'_append_extractLsb'_eq_extractLsb' rfl
  have upper : word.extractLsb' 16 16 ++ word.extractLsb' 8 8 = word.extractLsb' 8 24 :=
    BitVec.extractLsb'_append_extractLsb'_eq_extractLsb' rfl
  have whole : word.extractLsb' 8 24 ++ word.extractLsb' 0 8 = word.extractLsb' 0 32 :=
    BitVec.extractLsb'_append_extractLsb'_eq_extractLsb' rfl
  rw [high, upper, whole, BitVec.extractLsb'_eq_self]

/-- A load brings the bytes at its address and behind. -/
theorem load_value (words : Words 30) (instr : LoadInstr) {addr : BitVec 32}
    (aligned : Aligned instr.memWordsize addr) :
    instr.regOut (memRdataWord instr.memWordsize addr (words (wordAddr addr))) =
      instr.value (bytesOf words) addr := by
  cases instr with
  | lb =>
      rw [LoadInstr.memWordsize, memRdataWord_byte, LoadInstr.regOut,
        BitVec.extractLsb'_append_eq_right]
      rfl
  | lbu =>
      rw [LoadInstr.memWordsize, memRdataWord_byte, LoadInstr.regOut, zeros_append]
      rfl
  | lh =>
      rw [LoadInstr.memWordsize, memRdataWord_half aligned, LoadInstr.regOut,
        BitVec.extractLsb'_append_eq_right, LoadInstr.value, bytesOf_half words aligned.inside]
  | lhu =>
      rw [LoadInstr.memWordsize, memRdataWord_half aligned, LoadInstr.regOut, zeros_append,
        LoadInstr.value, bytesOf_half words aligned.inside]
  | lw => exact (bytesOf_word words aligned.lane_word).symm

/-! ### Stores -/

/-- A word from its bytes. -/
theorem bytes_lane (bytes : Nat → BitVec 8) {place : Nat} (below : place < 4) :
    (bytes 3 ++ bytes 2 ++ bytes 1 ++ bytes 0).extractLsb' (8 * place) 8 = bytes place := by
  have places : place = 0 ∨ place = 1 ∨ place = 2 ∨ place = 3 := by omega
  rcases places with rfl | rfl | rfl | rfl
  · exact BitVec.extractLsb'_append_eq_right
  · exact (BitVec.extractLsb'_append_eq_of_le (by decide)).trans BitVec.extractLsb'_append_eq_right
  · exact (BitVec.extractLsb'_append_eq_of_le (by decide)).trans
      ((BitVec.extractLsb'_append_eq_of_le (by decide)).trans BitVec.extractLsb'_append_eq_right)
  · exact (BitVec.extractLsb'_append_eq_of_le (by decide)).trans
      ((BitVec.extractLsb'_append_eq_of_le (by decide)).trans BitVec.extractLsb'_append_eq_left)

/-- A word from twice the same half. -/
theorem halves_lane (half : BitVec 16) (high : Bool) {place : Nat} (below : place < 2) :
    (half ++ half).extractLsb' (8 * (2 * high.toNat + place)) 8 =
      half.extractLsb' (8 * place) 8 := by
  cases high with
  | false =>
      rw [Bool.toNat_false, Nat.mul_zero, Nat.zero_add]
      exact BitVec.extractLsb'_append_eq_of_add_le (by omega)
  | true =>
      rw [Bool.toNat_true, BitVec.extractLsb'_append_eq_of_le (by omega)]
      exact congrArg (fun start => half.extractLsb' start 8) (by omega)

theorem writeBytes_lane (sel : BitVec 4) (old new : BitVec 32) {place : Nat} (below : place < 4) :
    (writeBytes sel old new).extractLsb' (8 * place) 8 =
      (if sel.getLsbD place then new else old).extractLsb' (8 * place) 8 :=
  bytes_lane (fun place => (if sel.getLsbD place then new else old).extractLsb' (8 * place) 8) below

/-- The strobes are those of the bytes of an aligned access. -/
theorem memLaWstrb_lane {size : WordSize} {addr : BitVec 32} (aligned : Aligned size addr)
    {place : Nat} (below : place < 4) :
    (memLaWstrb size addr).getLsbD place = true ↔
      lane addr ≤ place ∧ place - lane addr < size.bytes := by
  cases size with
  | word =>
      rw [aligned.lane_word]
      have all : ∀ place < 4, (0b1111#4).getLsbD place = true ↔ 0 ≤ place ∧ place - 0 < 4 := by
        decide
      exact all place below
  | half =>
      rw [aligned.lane_half, memLaWstrb]
      have all : ∀ high : Bool, ∀ place < 4,
          (if high then 0b1100#4 else 0b0011#4).getLsbD place = true ↔
            2 * high.toNat ≤ place ∧ place - 2 * high.toNat < 2 := by
        decide
      exact all (addr.getLsbD 1) place below
  | byte =>
      have all : ∀ low < 4, ∀ place < 4,
          (0b0001#4 <<< low).getLsbD place = true ↔ low ≤ place ∧ place - low < 1 := by
        decide
      exact all (lane addr) (lane_lt addr) place below

/-- On its strobes the data carries the bytes of the value, the lowest first. -/
theorem memLaWdata_lane {size : WordSize} {addr : BitVec 32} (aligned : Aligned size addr)
    (value : BitVec 32) {place : Nat} (below : place < 4) (behind : lane addr ≤ place)
    (among : place - lane addr < size.bytes) :
    (memLaWdata size value).extractLsb' (8 * place) 8 =
      value.extractLsb' (8 * (place - lane addr)) 8 := by
  cases size with
  | word => rw [aligned.lane_word, Nat.sub_zero, memLaWdata]
  | half =>
      obtain ⟨count, rfl⟩ := Nat.exists_eq_add_of_le behind
      rw [Nat.add_sub_cancel_left] at among ⊢
      rw [aligned.lane_half, memLaWdata, halves_lane _ _ among]
      have least : count < 2 := among
      exact BitVec.extractLsb'_extractLsb'_of_le (by omega)
  | byte =>
      have same : place - lane addr = 0 := Nat.lt_one_iff.mp among
      rw [same]
      exact bytes_lane (fun _ => value.extractLsb' 0 8) below

/-- A store leaves its bytes at its address and behind, and all others alone. -/
theorem store_bytes (words : Words 30) {size : WordSize} {addr : BitVec 32}
    (aligned : Aligned size addr) (value : BitVec 32) :
    bytesOf (words.serve ⟨true, wordAddr addr, memLaWdata size value, memLaWstrb size addr⟩) =
      (bytesOf words).store addr size.bytes value := by
  funext place
  have below := lane_lt place
  rw [Bytes.store]
  by_cases same : wordAddr place = wordAddr addr
  · have written : bytesOf (words.serve
        ⟨true, wordAddr addr, memLaWdata size value, memLaWstrb size addr⟩) place =
        (if (memLaWstrb size addr).getLsbD (lane place) then memLaWdata size value
          else words (wordAddr place)).extractLsb' (8 * lane place) 8 := by
      rw [← writeBytes_lane _ _ _ below, bytesOf, Words.serve, same, Bool.true_and, beq_self_eq_true,
        if_pos rfl, lane]
    rw [written]
    by_cases among : lane addr ≤ lane place ∧ lane place - lane addr < size.bytes
    · rw [if_pos ((memLaWstrb_lane aligned below).mpr among),
        if_pos ((sub_lt_iff aligned.inside).mpr ⟨same, among⟩), sub_inside same among.1]
      exact memLaWdata_lane aligned value below among.1 among.2
    · rw [if_neg (mt (memLaWstrb_lane aligned below).mp among),
        if_neg (fun less => among ((sub_lt_iff aligned.inside).mp less).2)]
      rfl
  · rw [if_neg (fun less => same ((sub_lt_iff aligned.inside).mp less).1), bytesOf, Words.serve,
      beq_false_of_ne same, Bool.and_false, if_neg Bool.false_ne_true]
    rfl

/-! ### Programs -/

theorem busRequest_addr (regOp1 wdata : BitVec 32) (wstrb : BitVec 4) :
    (busRequest ⟨memLaAddr regOp1, wdata, wstrb⟩).addr = wordAddr regOp1 :=
  BitVec.extractLsb'_append_eq_left

/-- Every store has a strobe, so that the bus takes it for a write. -/
theorem memLaWstrb_ne_zero {size : WordSize} {addr : BitVec 32} (aligned : Aligned size addr) :
    memLaWstrb size addr ≠ 0 := by
  intro zero
  have first : (memLaWstrb size addr).getLsbD (lane addr) = true := by
    refine (memLaWstrb_lane aligned (lane_lt addr)).mpr ⟨Nat.le_refl _, ?_⟩
    rw [Nat.sub_self]
    cases size <;> decide
  rw [zero] at first
  simp at first

theorem MemPort.step_bytes (port : MemPort) {access : Access} (aligned : access.Aligned) :
    bytesOf (port.step access).words = access.stores (bytesOf port.words) := by
  cases access with
  | load instr regOp1 =>
      have same : (port.step (.load instr regOp1)).words = port.words := by
        funext addr
        rfl
      rw [same]
      rfl
  | store instr regOp1 value =>
      have write : (busRequest (port.issue (.store instr regOp1 value))).we = true :=
        bne_iff_ne.mpr (memLaWstrb_ne_zero aligned)
      rw [MemPort.step, wbRequest, write, MemPort.issue, busRequest_addr]
      exact store_bytes port.words aligned value

theorem MemPort.loads_values (port : MemPort) {access : Access} (aligned : access.Aligned) :
    port.loads access = access.values (bytesOf port.words) := by
  cases access with
  | load instr regOp1 =>
      rw [MemPort.loads, MemPort.issue, busRequest_addr]
      exact congrArg (fun value => [value]) (load_value port.words instr aligned)
  | store _ _ _ => rfl

/-- The accesses of a program, all aligned: every load brings what it does on a
memory of bytes, and the bytes at the end are the same. -/
theorem accesses_bytewise {accesses : List Access}
    (aligned : ∀ access ∈ accesses, access.Aligned) (port : MemPort) :
    observed MemPort.step MemPort.loads port accesses =
        observed Access.stores Access.values (bytesOf port.words) accesses ∧
      bytesOf (clocked MemPort.step port accesses).words =
        clocked Access.stores (bytesOf port.words) accesses := by
  induction accesses generalizing port with
  | nil => exact ⟨rfl, rfl⟩
  | cons access rest ih =>
      have now := aligned access (.head _)
      obtain ⟨loads, bytes⟩ := ih (fun later member => aligned later (.tail _ member))
        (port.step access)
      rw [port.step_bytes now] at loads bytes
      refine ⟨?_, ?_⟩
      · rw [observed, observed, port.loads_values now, loads]
      · rw [clocked_cons, clocked_cons, bytes]

def emptyPort : MemPort := ⟨⟨0, 0, 0⟩, fun _ => 0⟩

/-- A word is stored, one of its bytes is replaced, and parts of it are loaded. -/
def someAccesses : List Access :=
  [.store .sw 0x10 0xdeadbeef, .store .sb 0x13 0x55, .load .lh 0x10, .load .lbu 0x13,
    .load .lw 0x10]

theorem someAccesses_bytewise :
    observed MemPort.step MemPort.loads emptyPort someAccesses =
        observed Access.stores Access.values (bytesOf emptyPort.words) someAccesses ∧
      bytesOf (clocked MemPort.step emptyPort someAccesses).words =
        clocked Access.stores (bytesOf emptyPort.words) someAccesses :=
  accesses_bytewise (by decide) emptyPort

example : observed MemPort.step MemPort.loads emptyPort someAccesses =
    [0xffffbeef, 0x55, 0x55adbeef] := by decide

end ZipVersa.Picorv
