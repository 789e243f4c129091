import ZipVersa.Enet.Receiver

/-! What each filter of the receive path holds when it has been offered the
first `taken` clocks of a frame: first its bytes, one a clock, and then idle
clocks. Every filter hands on a frame of its own in the same form. -/

set_option autoImplicit false

namespace ZipVersa.Enet

open Lib

/-- A clock of a stage that is offered a frame. -/
structure Offers (frame : List Byte) (taken : Nat) (iV : Bool) (iD : Byte) : Prop where
  valid : iV = true ↔ taken < frame.length
  data : taken < frame.length → iD = frame.getD taken 0

theorem Offers.cases {frame : List Byte} {taken : Nat} {iV : Bool} {iD : Byte}
    (offers : Offers frame taken iV iD) :
    (taken < frame.length ∧ iV = true ∧ iD = frame.getD taken 0) ∨
      (frame.length ≤ taken ∧ iV = false) := by
  by_cases inside : taken < frame.length
  · exact .inl ⟨inside, offers.valid.mpr inside, offers.data inside⟩
  · exact .inr ⟨by omega, Bool.eq_false_iff.mpr (mt offers.valid.mp inside)⟩

theorem Offers.idle {frame : List Byte} {taken : Nat} {iV : Bool} {iD : Byte}
    (offers : Offers frame taken iV iD) (past : frame.length ≤ taken) : iV = false :=
  Bool.eq_false_iff.mpr fun valid => absurd (offers.valid.mp valid) (by omega)

/-- A clock of the line itself: the bytes of a frame, silence for two clocks, and
then whatever is too short to be a preamble. -/
structure Brings (frame : List Byte) (taken : Nat) (iV : Bool) (iD : Byte) : Prop where
  inside : taken < frame.length → iV = true ∧ iD = frame.getD taken 0
  outside : frame.length ≤ taken →
    iV = false ∨ frame.length + 2 ≤ taken ∧ taken ≤ frame.length + 8

theorem Offers.brings {frame : List Byte} {taken : Nat} {iV : Bool} {iD : Byte}
    (offers : Offers frame taken iV iD) : Brings frame taken iV iD :=
  ⟨fun inside => ⟨offers.valid.mpr inside, offers.data inside⟩,
    fun past => .inl (offers.idle past)⟩

theorem Brings.offers {frame : List Byte} {taken : Nat} {iV : Bool} {iD : Byte}
    (brings : Brings frame taken iV iD) (early : taken < frame.length + 2) :
    Offers frame taken iV iD := by
  by_cases inside : taken < frame.length
  · have data := brings.inside inside
    exact ⟨by simp [inside, data.1], fun _ => data.2⟩
  · have silent : iV = false := (brings.outside (by omega)).resolve_right (by omega)
    exact ⟨by simp [inside, silent], fun now => absurd now inside⟩

namespace RxePreambl

/-! ### `rxepreambl` -/

/-- The circuit between packets. -/
structure Resting (pre : RxePreambl) : Prop where
  rInpkt : pre.rInpkt = false
  nsyncs : pre.nsyncs = 0
  oV : pre.oV = false

/-- The circuit in a packet, when the frame after the preamble began `taken`
clocks ago. -/
structure After (frame : List Byte) (taken : Nat) (pre : RxePreambl) : Prop where
  rInpkt : pre.rInpkt = true
  oV : pre.oV = true ↔ 1 ≤ taken ∧ taken ≤ frame.length
  oD : 1 ≤ taken → taken ≤ frame.length → pre.oD = frame.getD (taken - 1) 0

variable {frame : List Byte} {taken : Nat} {pre : RxePreambl} {iV : Bool} {iD : Byte}

/-- The count of bytes 0x55 stops at fifteen. -/
theorem nsyncs_count {nsyncs : BitVec 4} {syncs : Nat} (count : nsyncs.toNat = min syncs 15) :
    (if nsyncs = 15 then nsyncs else nsyncs + 1).toNat = min (syncs + 1) 15 := by
  have full : nsyncs = 15 ↔ 15 ≤ syncs := by
    rw [← BitVec.toNat_inj, count, show (15 : BitVec 4).toNat = 15 from rfl]
    omega
  split
  case isTrue stopped =>
    have many := full.mp stopped
    omega
  case isFalse running =>
    have few := mt full.mpr running
    rw [BitVec.toNat_add, count, show (1 : BitVec 4).toNat = 1 from rfl]
    omega

theorem Resting.reset (pre : RxePreambl) (iV : Bool) (iD : Byte) :
    (pre.step true true true iV iD).Resting := ⟨rfl, rfl, rfl⟩

theorem Resting.idle (resting : pre.Resting) (iD : Byte) :
    (pre.step false true true false iD).Resting := by
  constructor <;> simp [RxePreambl.step, resting.oV]

theorem After.step (after : After frame taken pre) (offers : Offers frame taken iV iD)
    (some : 0 < frame.length) (running : taken ≤ frame.length) :
    After frame (taken + 1) (pre.step false true true iV iD) := by
  have output := after.oV
  rcases offers.cases with ⟨inside, rfl, rfl⟩ | ⟨past, rfl⟩
  · simp only [RxePreambl.step, after.rInpkt, Bool.false_eq_true, if_false, if_true, Bool.not_true,
      Bool.false_and]
    refine ⟨rfl, ?_, fun _ _ => by rw [Nat.add_sub_cancel]⟩
    simp
    omega
  · have last : pre.oV = true := output.mpr ⟨by omega, running⟩
    simp only [RxePreambl.step, after.rInpkt, last, Bool.false_eq_true, if_false, if_true,
      Bool.not_true, Bool.and_false]
    refine ⟨rfl, ?_, fun _ inside => by omega⟩
    simp
    omega

theorem After.rests (after : After frame (frame.length + 1) pre) :
    (pre.step false true true false iD).Resting := by
  have hidden : pre.oV = false := Bool.eq_false_iff.mpr fun shown => by
    have when := after.oV.mp shown
    omega
  constructor <;> simp [RxePreambl.step, hidden]

/-- The circuit after a frame. -/
structure Closed (frame : List Byte) (taken : Nat) (pre : RxePreambl) : Prop where
  rInpkt : pre.rInpkt = false
  oV : pre.oV = false
  nsyncs : pre.nsyncs.toNat + frame.length + 2 ≤ taken

/-- The circuit from the first byte of the frame on, for as long as no other
frame begins. -/
structure Through (frame : List Byte) (taken : Nat) (pre : RxePreambl) : Prop where
  during : taken ≤ frame.length + 1 → After frame taken pre
  done : frame.length + 1 < taken → Closed frame taken pre

theorem Closed.step (closed : Closed frame taken pre) (brings : Brings frame taken iV iD) :
    Closed frame (taken + 1) (pre.step false true true iV iD) := by
  obtain ⟨outside, hidden, few⟩ := closed
  rcases brings.outside (by omega) with rfl | ⟨-, early⟩
  · refine ⟨?_, ?_, ?_⟩ <;> simp [RxePreambl.step, hidden]
    omega
  · have waits : (6#4).ult pre.nsyncs = false := by
      refine Bool.eq_false_iff.mpr fun many => ?_
      rw [BitVec.ult_iff_toNat_lt] at many
      have more : 6 < pre.nsyncs.toNat := many
      omega
    have count : (if pre.nsyncs = 15 then pre.nsyncs else pre.nsyncs + 1).toNat ≤
        pre.nsyncs.toNat + 1 := by
      split
      · omega
      · rw [BitVec.toNat_add]
        exact Nat.mod_le _ _
    refine ⟨?_, ?_, ?_⟩
    · simp [RxePreambl.step, outside, waits]
    · cases iV <;> simp [RxePreambl.step, outside, hidden]
    · simp only [RxePreambl.step, outside, hidden, Bool.false_eq_true, if_false, if_true,
        Bool.not_true, Bool.not_false, Bool.and_true]
      cases iV
      · simp
        omega
      · by_cases sync : iD = 0x55#8
        · simp only [sync, beq_self_eq_true, Bool.not_true, Bool.false_eq_true, if_false, if_true,
            Bool.and_true]
          omega
        · simp [sync]
          omega

theorem Through.step (through : Through frame taken pre) (brings : Brings frame taken iV iD)
    (some : 0 < frame.length) : Through frame (taken + 1) (pre.step false true true iV iD) where
  during early := (through.during (by omega)).step (brings.offers (by omega)) some (by omega)
  done late := by
    by_cases last : taken = frame.length + 1
    · subst last
      have silent := (brings.offers (by omega)).idle (by omega)
      rw [silent]
      have resting : (pre.step false true true false iD).Resting :=
        (through.during (Nat.le_refl _)).rests
      exact ⟨resting.rInpkt, resting.oV, by rw [resting.nsyncs]; simp⟩
    · exact (through.done (by omega)).step brings

theorem Through.offers (through : Through frame taken pre) (started : 1 ≤ taken) :
    Offers frame (taken - 1) pre.oV pre.oD := by
  by_cases early : taken ≤ frame.length + 1
  · have after := through.during early
    refine ⟨?_, fun inside => after.oD started (by omega)⟩
    rw [after.oV]
    omega
  · refine ⟨?_, fun inside => by omega⟩
    rw [(through.done (by omega)).oV]
    simp
    omega

end RxePreambl

namespace RxeCrc

/-! ### `rxecrc` -/

/-- The CRC register after some bytes. -/
def crcOf (bytes : List Byte) : BitVec 32 := bytes.foldl crcNext 0xffffffff

/-- The `count` bytes from `start` on are the first bytes of the frame check
sequence of the bytes before `start`. -/
def Agrees (frame : List Byte) (start count : Nat) : Prop :=
  ∀ index < count, frame.getD (start + index) 0 = octet (~~~ crcOf (frame.take start)) index

instance (frame : List Byte) (start count : Nat) : Decidable (Agrees frame start count) :=
  inferInstanceAs (Decidable (∀ index < count, _))

/-- A frame check sequence ends `back` bytes before the last of the first `taken`
bytes. -/
def Matched (frame : List Byte) (taken back : Nat) : Prop :=
  back + 4 ≤ taken ∧ Agrees frame (taken - (back + 4)) 4

instance (frame : List Byte) (taken back : Nat) : Decidable (Matched frame taken back) :=
  inferInstanceAs (Decidable (_ ∧ _))

/-- How much of a frame is handed on. -/
def kept (frame : List Byte) : Nat :=
  if Matched frame frame.length 3 then frame.length - 2
  else if Matched frame frame.length 2 then frame.length - 1
  else frame.length

/-- None of the last four positions ends a frame check sequence. -/
def Unmatched (frame : List Byte) : Prop :=
  4 ≤ frame.length ∧ ∀ back < 4, ¬ Matched frame frame.length back

instance (frame : List Byte) : Decidable (Unmatched frame) :=
  inferInstanceAs (Decidable (_ ∧ ∀ back < 4, _))

theorem kept_le (frame : List Byte) : kept frame ≤ frame.length := by
  unfold kept
  split
  · omega
  · split <;> omega

theorem le_kept (frame : List Byte) : frame.length ≤ kept frame + 2 := by
  unfold kept
  split
  · omega
  · split <;> omega

theorem agrees_succ (frame : List Byte) (start count : Nat) :
    Agrees frame start (count + 1) ↔ Agrees frame start count ∧
      frame.getD (start + count) 0 = octet (~~~ crcOf (frame.take start)) count := by
  constructor
  · intro agrees
    exact ⟨fun index below => agrees index (by omega), agrees count (by omega)⟩
  · rintro ⟨agrees, last⟩ index below
    by_cases new : index = count
    · exact new ▸ last
    · exact agrees index (by omega)

theorem agrees_zero (frame : List Byte) (start : Nat) : Agrees frame start 0 :=
  fun _ below => absurd below (by omega)

/-- The circuit between packets. -/
structure Resting (crc : RxeCrc) : Prop where
  rErr : crc.rErr = false
  rMq0 : crc.rMq0 = false
  rMq1 : crc.rMq1 = false
  rMq2 : crc.rMq2 = false
  rMp0 : crc.rMp0 = false
  rMp1 : crc.rMp1 = false
  rMp2 : crc.rMp2 = false
  rMp3 : crc.rMp3 = false
  rCrc : crc.rCrc = 0xffffffff
  buf0 : crc.buf0.v = false
  buf1 : crc.buf1.v = false
  buf2 : crc.buf2.v = false
  oV : crc.oV = false

/-- The comparisons while the frame is coming in. -/
structure Compares (frame : List Byte) (taken : Nat) (crc : RxeCrc) : Prop where
  rCrc : crc.rCrc = crcOf (frame.take taken)
  rCrcQ0 : 1 ≤ taken → crc.rCrcQ0 = (crcOf (frame.take (taken - 1))).extractLsb' 8 24
  rCrcQ1 : 2 ≤ taken → crc.rCrcQ1 = (crcOf (frame.take (taken - 2))).extractLsb' 16 16
  rCrcQ2 : 3 ≤ taken → crc.rCrcQ2 = (crcOf (frame.take (taken - 3))).extractLsb' 24 8
  rMq0 : crc.rMq0 = true ↔ 1 ≤ taken ∧ Agrees frame (taken - 1) 1
  rMq1 : crc.rMq1 = true ↔ 2 ≤ taken ∧ Agrees frame (taken - 2) 2
  rMq2 : crc.rMq2 = true ↔ 3 ≤ taken ∧ Agrees frame (taken - 3) 3
  rMp0 : crc.rMp0 = true ↔ Matched frame taken 0
  rMp1 : crc.rMp1 = true ↔ Matched frame taken 1
  rMp2 : crc.rMp2 = true ↔ Matched frame taken 2
  rMp3 : crc.rMp3 = true ↔ Matched frame taken 3

variable {frame : List Byte} {taken : Nat} {crc : RxeCrc} {iEn iV : Bool} {iD : Byte}

theorem Resting.compares (resting : crc.Resting) (frame : List Byte) :
    Compares frame 0 crc where
  rCrc := resting.rCrc
  rCrcQ0 some := absurd some (by decide)
  rCrcQ1 some := absurd some (by decide)
  rCrcQ2 some := absurd some (by decide)
  rMq0 := by simp [resting.rMq0]
  rMq1 := by simp [resting.rMq1]
  rMq2 := by simp [resting.rMq2]
  rMp0 := by simp [resting.rMp0, Matched]
  rMp1 := by simp [resting.rMp1, Matched]
  rMp2 := by simp [resting.rMp2, Matched]
  rMp3 := by simp [resting.rMp3, Matched]

theorem crcOf_succ (inside : taken < frame.length) :
    crcOf (frame.take (taken + 1)) = crcNext (crcOf (frame.take taken)) (frame.getD taken 0) := by
  have byte : frame.getD taken 0 = frame[taken] := by
    simp [List.getD, inside]
  rw [List.take_succ_eq_append_getElem inside, crcOf, List.foldl_append, byte]
  rfl

theorem octet_not (word : BitVec 32) {index : Nat} (inside : index < 4) :
    octet (~~~ word) index = ~~~ word.extractLsb' (8 * index) 8 := by
  apply BitVec.eq_of_getLsbD_eq
  intro position bound
  have place : 8 * index + position < 32 := by omega
  simp [octet, bound, place]

/-- One more byte of the frame check sequence. -/
theorem agrees_step {start count : Nat} (inside : count < 4) {part : Byte}
    (slice : part = (crcOf (frame.take start)).extractLsb' (8 * count) 8) :
    Agrees frame start (count + 1) ↔
      Agrees frame start count ∧ frame.getD (start + count) 0 = ~~~ part := by
  rw [agrees_succ, octet_not _ inside, slice]

theorem setWidth_byte {width : Nat} (word : BitVec width) :
    word.setWidth 8 = word.extractLsb' 0 8 := by
  apply BitVec.eq_of_getLsbD_eq
  intro position bound
  simp [bound]

theorem extract_extract (word : BitVec 32) (first second : Nat) {wide narrow : Nat}
    (fits : second + narrow ≤ wide) :
    (word.extractLsb' first wide).extractLsb' second narrow =
      word.extractLsb' (first + second) narrow := by
  apply BitVec.eq_of_getLsbD_eq
  intro position bound
  have place : second + position < wide := by omega
  simp [bound, place, Nat.add_assoc]

/-- One byte of the frame. -/
theorem Compares.step (compares : Compares frame taken crc) (inside : taken < frame.length)
    (data : iD = frame.getD taken 0) :
    Compares frame (taken + 1) (crc.step false true iEn true iD) := by
  have first : crc.rCrc.setWidth 8 = (crcOf (frame.take taken)).extractLsb' (8 * 0) 8 := by
    rw [compares.rCrc, setWidth_byte]
  have second (some : 1 ≤ taken) :
      crc.rCrcQ0.setWidth 8 = (crcOf (frame.take (taken - 1))).extractLsb' (8 * 1) 8 := by
    rw [compares.rCrcQ0 some, setWidth_byte, extract_extract _ _ _ (by decide)]
  have third (some : 2 ≤ taken) :
      crc.rCrcQ1.setWidth 8 = (crcOf (frame.take (taken - 2))).extractLsb' (8 * 2) 8 := by
    rw [compares.rCrcQ1 some, setWidth_byte, extract_extract _ _ _ (by decide)]
  simp only [RxeCrc.step, Bool.false_eq_true, if_false, if_true, Bool.not_true, Bool.false_and,
    Bool.and_true]
  constructor
  case rCrc => simp only [compares.rCrc, data, crcOf_succ inside]
  case rCrcQ0 => intro some; simp only [compares.rCrc, Nat.add_sub_cancel]
  case rCrcQ1 =>
    intro some
    simp only [compares.rCrcQ0 (by omega), extract_extract _ 8 8 (show 8 + 16 ≤ 24 by decide)]
    rw [show taken + 1 - 2 = taken - 1 by omega]
  case rCrcQ2 =>
    intro some
    simp only [compares.rCrcQ1 (by omega), extract_extract _ 16 8 (show 8 + 8 ≤ 16 by decide)]
    rw [show taken + 1 - 3 = taken - 2 by omega]
  case rMq0 =>
    rw [Nat.add_sub_cancel, agrees_step (by decide) first, beq_iff_eq, data]
    simp [agrees_zero]
  case rMq1 =>
    rw [Bool.and_eq_true, beq_iff_eq, data, compares.rMq0]
    by_cases some : 1 ≤ taken
    · rw [show taken + 1 - 2 = taken - 1 by omega, agrees_step (by decide) (second some),
        show taken - 1 + 1 = taken by omega]
      simp [some]
    · simp [some]
  case rMq2 =>
    rw [Bool.and_eq_true, beq_iff_eq, data, compares.rMq1]
    by_cases some : 2 ≤ taken
    · rw [show taken + 1 - 3 = taken - 2 by omega, agrees_step (by decide) (third some),
        show taken - 2 + 2 = taken by omega]
      simp [some]
    · simp [some]
  case rMp0 =>
    rw [Bool.and_eq_true, beq_iff_eq, data, compares.rMq2, Matched]
    by_cases some : 3 ≤ taken
    · have fourth : crc.rCrcQ2 = (crcOf (frame.take (taken - 3))).extractLsb' (8 * 3) 8 :=
        compares.rCrcQ2 some
      rw [show taken + 1 - (0 + 4) = taken - 3 by omega, show (4 : Nat) = 3 + 1 from rfl,
        agrees_step (by decide) fourth, show taken - 3 + 3 = taken by omega]
      simp [some]
    · simp [some]
  case rMp1 =>
    rw [compares.rMp0, Matched, Matched, show taken + 1 - (1 + 4) = taken - (0 + 4) by omega]
    exact and_congr_left' (by omega)
  case rMp2 =>
    rw [compares.rMp1, Matched, Matched, show taken + 1 - (2 + 4) = taken - (1 + 4) by omega]
    exact and_congr_left' (by omega)
  case rMp3 =>
    rw [compares.rMp2, Matched, Matched, show taken + 1 - (3 + 4) = taken - (2 + 4) by omega]
    exact and_congr_left' (by omega)

/-- The circuit when the frame came in `taken` clocks ago, until it has handed
on what it keeps of the frame. -/
structure After (iEn : Bool) (frame : List Byte) (taken : Nat) (crc : RxeCrc) : Prop where
  compares : taken ≤ frame.length → Compares frame taken crc
  buf0 : crc.buf0.v = true ↔ 1 ≤ taken ∧ taken ≤ frame.length
  buf1 : crc.buf1.v = true ↔ 2 ≤ taken ∧ (taken ≤ frame.length ∨ taken - 2 < kept frame)
  buf2 : crc.buf2.v = true ↔ 3 ≤ taken ∧ (taken ≤ frame.length ∨ taken - 3 < kept frame)
  oV : crc.oV = true ↔ 4 ≤ taken ∧ taken - 4 < kept frame
  data0 : 1 ≤ taken → taken - 1 < frame.length → crc.buf0.d = frame.getD (taken - 1) 0
  data1 : 2 ≤ taken → taken - 2 < frame.length → crc.buf1.d = frame.getD (taken - 2) 0
  data2 : 3 ≤ taken → taken - 3 < frame.length → crc.buf2.d = frame.getD (taken - 3) 0
  oD : 4 ≤ taken → taken - 4 < frame.length → crc.oD = frame.getD (taken - 4) 0
  rErr : crc.rErr = true ↔ frame.length < taken ∧ iEn = true ∧ Unmatched frame

theorem Resting.after (resting : crc.Resting) (iEn : Bool) (frame : List Byte) :
    After iEn frame 0 crc where
  compares _ := resting.compares frame
  buf0 := by simp [resting.buf0]
  buf1 := by simp [resting.buf1]
  buf2 := by simp [resting.buf2]
  oV := by simp [resting.oV]
  data0 some := absurd some (by decide)
  data1 some := absurd some (by decide)
  data2 some := absurd some (by decide)
  oD some := absurd some (by decide)
  rErr := by simp [resting.rErr]

theorem Resting.idle (resting : crc.Resting) (iEn : Bool) (iD : Byte) :
    (crc.step false true iEn false iD).Resting := by
  constructor <;> simp [RxeCrc.step, resting.buf0, resting.buf1, resting.buf2, resting.oV]

theorem Resting.reset (crc : RxeCrc) (iEn iV : Bool) (iD : Byte) :
    (crc.step true true iEn iV iD).Resting := by
  constructor <;> simp [RxeCrc.step]

/-- The verdict at the first clock after the frame. -/
theorem After.judges (after : After iEn frame frame.length crc) :
    (crc.step false true iEn false iD).rErr = true ↔ iEn = true ∧ Unmatched frame := by
  have compares := after.compares (Nat.le_refl _)
  have quiet : crc.rErr = false := Bool.eq_false_iff.mpr fun error =>
    absurd (after.rErr.mp error).1 (by omega)
  have output := after.oV
  have length := le_kept frame
  have matches0 := compares.rMp0
  have matches1 := compares.rMp1
  have matches2 := compares.rMp2
  have matches3 := compares.rMp3
  have unmatched : Unmatched frame ↔ 4 ≤ frame.length ∧ crc.rMp0 = false ∧ crc.rMp1 = false ∧
      crc.rMp2 = false ∧ crc.rMp3 = false := by
    simp only [← Bool.not_eq_true, matches0, matches1, matches2, matches3]
    constructor
    · rintro ⟨long, none⟩
      exact ⟨long, none 0 (by decide), none 1 (by decide), none 2 (by decide), none 3 (by decide)⟩
    · rintro ⟨long, none0, none1, none2, none3⟩
      refine ⟨long, fun back below => ?_⟩
      match back, below with
      | 0, _ => exact none0
      | 1, _ => exact none1
      | 2, _ => exact none2
      | 3, _ => exact none3
  rw [unmatched]
  by_cases long : 4 ≤ frame.length
  · have shown : crc.oV = true := output.mpr ⟨long, by omega⟩
    have last : crc.buf0.v = true := after.buf0.mpr ⟨by omega, by omega⟩
    simp only [RxeCrc.step, shown, quiet, last, long, Bool.false_eq_true, if_false, if_true,
      Bool.not_false, Bool.not_true, Bool.and_false, Bool.true_and, true_and]
    cases iEn <;> simp [and_assoc]
  · have hidden : crc.oV = false := Bool.eq_false_iff.mpr fun shown =>
      absurd (output.mp shown).1 long
    simp [RxeCrc.step, hidden, long]

/-- What the end of the frame cuts off. -/
theorem After.cut (after : After iEn frame frame.length crc) (some : 0 < frame.length) :
    (crc.trims false && (crc.rMp3 || crc.rMp2)) = decide (kept frame < frame.length) ∧
      (crc.trims false && crc.rMp3) = decide (kept frame + 1 < frame.length) := by
  have compares := after.compares (Nat.le_refl _)
  have last : crc.trims false = true := by
    simp [trims, after.buf0.mpr ⟨some, Nat.le_refl _⟩]
  have matches2 := compares.rMp2
  have matches3 := compares.rMp3
  rw [last, Bool.true_and, Bool.true_and]
  unfold kept
  by_cases third : Matched frame frame.length 3
  · have long := third.1
    simp only [third, if_true, matches3.mpr third, Bool.true_or]
    exact ⟨(decide_eq_true (by omega)).symm, (decide_eq_true (by omega)).symm⟩
  · have no3 : crc.rMp3 = false := Bool.eq_false_iff.mpr (mt matches3.mp third)
    by_cases second : Matched frame frame.length 2
    · have long := second.1
      simp only [third, second, if_true, if_false, matches2.mpr second, no3, Bool.false_or]
      exact ⟨(decide_eq_true (by omega)).symm, (decide_eq_false (by omega)).symm⟩
    · have no2 : crc.rMp2 = false := Bool.eq_false_iff.mpr (mt matches2.mp second)
      simp only [third, second, if_false, no2, no3, Bool.false_or]
      exact ⟨(decide_eq_false (by omega)).symm, (decide_eq_false (by omega)).symm⟩

theorem After.buf1_step (after : After iEn frame taken crc) (offers : Offers frame taken iV iD) :
    (crc.step false true iEn iV iD).buf1.v = true ↔
      2 ≤ taken + 1 ∧ (taken + 1 ≤ frame.length ∨ taken + 1 - 2 < kept frame) := by
  have below := kept_le frame
  have lane0 := after.buf0
  rcases offers.cases with ⟨inside, rfl, -⟩ | ⟨past, rfl⟩
  · simp only [RxeCrc.step, trims, Bool.false_eq_true, if_false, if_true, Bool.not_true,
      Bool.false_and, Bool.not_false, Bool.and_true, lane0]
    omega
  · simp only [RxeCrc.step, Bool.false_eq_true, if_false, if_true, Bool.and_eq_true, lane0]
    by_cases first : taken = frame.length
    · subst first
      by_cases some : 0 < frame.length
      · rw [(after.cut some).1, Bool.not_eq_true', decide_eq_false_iff_not]
        omega
      · omega
    · omega

/-- Behind the frame nothing is in the first place. -/
theorem After.buf0_past (after : After iEn frame taken crc) (past : frame.length < taken) :
    crc.buf0.v = false := Bool.eq_false_iff.mpr fun shown => by
  have when := after.buf0.mp shown
  omega

theorem After.buf2_step (after : After iEn frame taken crc) (offers : Offers frame taken iV iD) :
    (crc.step false true iEn iV iD).buf2.v = true ↔
      3 ≤ taken + 1 ∧ (taken + 1 ≤ frame.length ∨ taken + 1 - 3 < kept frame) := by
  have below := kept_le frame
  have lane1 := after.buf1
  rcases offers.cases with ⟨inside, rfl, -⟩ | ⟨past, rfl⟩
  · simp only [RxeCrc.step, trims, Bool.false_eq_true, if_false, if_true, Bool.not_true,
      Bool.false_and, Bool.not_false, Bool.and_true, lane1]
    omega
  · by_cases first : taken = frame.length
    · subst first
      simp only [RxeCrc.step, Bool.false_eq_true, if_false, if_true, Bool.and_eq_true, lane1]
      by_cases some : 0 < frame.length
      · rw [(after.cut some).2, Bool.not_eq_true', decide_eq_false_iff_not]
        omega
      · omega
    · simp only [RxeCrc.step, trims, after.buf0_past (by omega), Bool.false_eq_true, if_false,
        if_true, Bool.and_false, Bool.false_and, Bool.not_false, Bool.and_true, lane1]
      omega

/-- The verdict stands until the frame is through. -/
theorem After.rErr_past (after : After iEn frame taken crc) (past : frame.length < taken)
    (running : taken < kept frame + 4) :
    (crc.step false true iEn false iD).rErr = true ↔ iEn = true ∧ Unmatched frame := by
  have below := kept_le frame
  have late := after.buf0_past past
  by_cases long : 4 ≤ taken
  · have shown : crc.oV = true := after.oV.mpr ⟨long, by omega⟩
    have held : (crc.step false true iEn false iD).rErr = crc.rErr := by
      simp only [RxeCrc.step, shown, late, Bool.false_eq_true, if_false, if_true,
        Bool.not_false, Bool.not_true, Bool.and_false, Bool.false_and]
      cases crc.rErr <;> simp
    rw [held, after.rErr]
    exact ⟨And.right, fun verdict => ⟨past, verdict⟩⟩
  · have hidden : crc.oV = false := Bool.eq_false_iff.mpr fun shown =>
      absurd (after.oV.mp shown).1 long
    simp only [RxeCrc.step, hidden, Bool.false_eq_true, if_false, if_true, Bool.not_false,
      Bool.true_and, false_iff]
    rintro ⟨-, tooLong, -⟩
    omega

theorem After.rErr_step (after : After iEn frame taken crc) (offers : Offers frame taken iV iD)
    (running : taken < kept frame + 4) :
    (crc.step false true iEn iV iD).rErr = true ↔
      frame.length < taken + 1 ∧ iEn = true ∧ Unmatched frame := by
  rcases offers.cases with ⟨inside, rfl, -⟩ | ⟨past, rfl⟩
  · have quiet : crc.rErr = false := Bool.eq_false_iff.mpr fun shown => by
      have when := after.rErr.mp shown
      omega
    simp only [RxeCrc.step, quiet, Bool.false_eq_true, if_false, if_true, Bool.not_true,
      Bool.false_and, Bool.not_false, Bool.true_and, false_iff, ite_self]
    omega
  · have behind : frame.length < taken + 1 := by omega
    by_cases first : taken = frame.length
    · subst first
      rw [after.judges]
      exact ⟨fun verdict => ⟨behind, verdict⟩, And.right⟩
    · rw [after.rErr_past (by omega) running]
      exact ⟨fun verdict => ⟨behind, verdict⟩, And.right⟩

/-- One clock. -/
theorem After.step (after : After iEn frame taken crc) (offers : Offers frame taken iV iD)
    (running : taken < kept frame + 4) :
    After iEn frame (taken + 1) (crc.step false true iEn iV iD) := by
  have length := le_kept frame
  have below := kept_le frame
  constructor
  case compares =>
    intro inside
    rw [offers.valid.mpr (by omega)]
    exact (after.compares (by omega)).step (by omega) (offers.data (by omega))
  case buf0 =>
    simp only [RxeCrc.step, Bool.false_eq_true, if_false, if_true, offers.valid]
    omega
  case buf1 => exact after.buf1_step offers
  case buf2 => exact after.buf2_step offers
  case oV =>
    simp only [RxeCrc.step, Bool.false_eq_true, if_false, if_true, after.buf2]
    omega
  case data0 =>
    intro _ inside
    simp only [RxeCrc.step, if_true, Nat.add_sub_cancel] at inside ⊢
    exact offers.data inside
  case data1 =>
    intro some inside
    simp only [RxeCrc.step, if_true]
    exact after.data0 (by omega) (by omega)
  case data2 =>
    intro some inside
    simp only [RxeCrc.step, if_true]
    exact after.data1 (by omega) (by omega)
  case oD =>
    intro some inside
    simp only [RxeCrc.step, if_true]
    exact after.data2 (by omega) (by omega)
  case rErr => exact after.rErr_step offers running

/-- The frame is through. -/
theorem After.rests (after : After iEn frame (kept frame + 4) crc) :
    (crc.step false true iEn false iD).Resting := by
  have length := le_kept frame
  have hidden : crc.oV = false := Bool.eq_false_iff.mpr fun shown => by
    have when := after.oV.mp shown
    omega
  have empty0 : crc.buf0.v = false := Bool.eq_false_iff.mpr fun shown => by
    have when := after.buf0.mp shown
    omega
  have empty1 : crc.buf1.v = false := Bool.eq_false_iff.mpr fun shown => by
    have when := after.buf1.mp shown
    omega
  have empty2 : crc.buf2.v = false := Bool.eq_false_iff.mpr fun shown => by
    have when := after.buf2.mp shown
    omega
  constructor <;> simp [RxeCrc.step, hidden, empty0, empty1, empty2]

structure Through (iEn : Bool) (frame : List Byte) (taken : Nat) (crc : RxeCrc) : Prop where
  during : taken ≤ kept frame + 4 → After iEn frame taken crc
  done : kept frame + 4 < taken → crc.Resting

theorem Resting.through (resting : crc.Resting) (iEn : Bool) (frame : List Byte) :
    Through iEn frame 0 crc where
  during _ := resting.after iEn frame
  done late := absurd late (by omega)

theorem Through.step (through : Through iEn frame taken crc) (offers : Offers frame taken iV iD) :
    Through iEn frame (taken + 1) (crc.step false true iEn iV iD) where
  during early := (through.during (by omega)).step offers (by omega)
  done late := by
    have length := le_kept frame
    rw [offers.idle (by omega)]
    by_cases last : taken = kept frame + 4
    · subst last
      exact (through.during (Nat.le_refl _)).rests
    · exact (through.done (by omega)).idle iEn iD

/-- The part of a frame that is handed on. -/
def keeps (frame : List Byte) : List Byte := frame.take (kept frame)

theorem keeps_length (frame : List Byte) : (keeps frame).length = kept frame := by
  rw [keeps, List.length_take, Nat.min_eq_left (kept_le frame)]

/-- It comes out four clocks later. -/
theorem Through.offers (through : Through iEn frame taken crc) (started : 4 ≤ taken) :
    Offers (keeps frame) (taken - 4) crc.oV crc.oD := by
  have below := kept_le frame
  by_cases early : taken ≤ kept frame + 4
  · have after := through.during early
    refine ⟨?_, fun inside => ?_⟩
    · rw [after.oV, keeps_length]
      exact ⟨fun known => known.2, fun inside => ⟨started, inside⟩⟩
    · rw [keeps_length] at inside
      rw [after.oD started (by omega), keeps, List.getD, List.getD,
        List.getElem?_take_of_lt inside]
  · refine ⟨?_, fun inside => ?_⟩
    · rw [(through.done (by omega)).oV, keeps_length]
      simp
      omega
    · rw [keeps_length] at inside
      omega

theorem Through.rErr (through : Through iEn frame taken crc) :
    crc.rErr = true ↔
      frame.length < taken ∧ taken ≤ kept frame + 4 ∧ iEn = true ∧ Unmatched frame := by
  by_cases early : taken ≤ kept frame + 4
  · rw [(through.during early).rErr]
    simp [early]
  · rw [(through.done (by omega)).rErr]
    simp [early]

end RxeCrc

namespace RxeHwMac

/-! ### `rxehwmac` -/

/-- The first six bytes of a frame are those of a hardware address. -/
def Addresses (hwMac : BitVec 48) (frame : List Byte) : Prop :=
  ∀ index < 6, frame.getD index 0 = octet hwMac (5 - index)

instance (hwMac : BitVec 48) (frame : List Byte) : Decidable (Addresses hwMac frame) :=
  inferInstanceAs (Decidable (∀ index < 6, _))

/-- The frame is for this station or for all. -/
def Accepts (hwMac : BitVec 48) (frame : List Byte) : Prop :=
  Addresses hwMac frame ∨ Addresses 0xffffffffffff frame

instance (hwMac : BitVec 48) (frame : List Byte) : Decidable (Accepts hwMac frame) :=
  inferInstanceAs (Decidable (_ ∨ _))

/-- The bytes handed on: the destination is stripped where it is filtered. -/
def strip (iEn : Bool) (frame : List Byte) : List Byte := if iEn then frame.drop 6 else frame

/-- The circuit between packets. -/
structure Resting (hwMac : BitVec 48) (mac : RxeHwMac) : Prop where
  rHwmac : mac.rHwmac = hwMac
  rHwmatch : mac.rHwmatch = true
  rBroadcast : mac.rBroadcast = true
  rP : mac.rP = -1
  oV : mac.oV = false
  oErr : mac.oErr = false

/-- The circuit when it has been offered `taken` clocks of the frame. -/
structure After (iEn : Bool) (hwMac : BitVec 48) (frame : List Byte) (taken : Nat)
    (mac : RxeHwMac) : Prop where
  rP : taken ≤ frame.length → mac.rP = (-1#7) <<< taken
  rHwmac : taken ≤ frame.length → taken < 6 → mac.rHwmac = hwMac <<< (8 * taken)
  rHwmatch : taken ≤ frame.length →
    (mac.rHwmatch = true ↔ ∀ index < min taken 6, frame.getD index 0 = octet hwMac (5 - index))
  rBroadcast : taken ≤ frame.length →
    (mac.rBroadcast = true ↔ ∀ index < min taken 6, frame.getD index 0 = 0xff)
  oV : mac.oV = true ↔ 1 ≤ taken ∧ taken ≤ frame.length ∧ (iEn = true → 7 ≤ taken)
  oD : 1 ≤ taken → taken ≤ frame.length → mac.oD = frame.getD (taken - 1) 0
  oErr : mac.oErr = true ↔
    iEn = true ∧ 7 ≤ taken ∧ taken ≤ frame.length ∧ ¬ Accepts hwMac frame

variable {frame : List Byte} {taken : Nat} {mac : RxeHwMac} {hwMac : BitVec 48} {iEn iV : Bool}
  {iD : Byte}

theorem Resting.after (resting : mac.Resting hwMac) (iEn : Bool) (frame : List Byte) :
    After iEn hwMac frame 0 mac where
  rP _ := by rw [resting.rP]; rfl
  rHwmac _ _ := by rw [resting.rHwmac, Nat.mul_zero, BitVec.shiftLeft_zero]
  rHwmatch _ := by simp [resting.rHwmatch]
  rBroadcast _ := by simp [resting.rBroadcast]
  oV := by simp [resting.oV]
  oD some := absurd some (by decide)
  oErr := by simp [resting.oErr]

theorem Resting.reset (mac : RxeHwMac) (iEn iV : Bool) (hwMac : BitVec 48) (iD : Byte) :
    (mac.step true true iEn hwMac iV iD).Resting hwMac := by
  constructor <;> simp [RxeHwMac.step]

theorem Resting.idle (resting : mac.Resting hwMac) (iEn : Bool) (iD : Byte) :
    (mac.step false true iEn hwMac false iD).Resting hwMac := by
  constructor <;> simp [RxeHwMac.step, resting.oV]

theorem shifted_five (taken : Nat) : ((-1#7) <<< taken).getLsbD 5 = decide (taken < 6) := by
  by_cases short : taken < 7
  · revert short
    revert taken
    decide
  · rw [BitVec.shiftLeft_eq_zero (by omega)]
    symm
    exact decide_eq_false (by omega)

theorem shifted_six (taken : Nat) :
    (((-1#7) <<< taken).extractLsb' 5 2 == 2#2) = decide (taken = 6) := by
  by_cases short : taken < 7
  · revert short
    revert taken
    decide
  · rw [BitVec.shiftLeft_eq_zero (by omega)]
    symm
    exact decide_eq_false (by omega)

theorem shifted_byte (hwMac : BitVec 48) (early : taken < 6) :
    (hwMac <<< (8 * taken)).extractLsb' 40 8 = octet hwMac (5 - taken) := by
  apply BitVec.eq_of_getLsbD_eq
  intro position bound
  have place : 40 + position - 8 * taken = 8 * (5 - taken) + position := by omega
  have inside : 40 + position < 48 := by omega
  have above : ¬ 40 + position < 8 * taken := by omega
  simp only [octet, BitVec.getLsbD_extractLsb', BitVec.getLsbD_shiftLeft, BitVec.getLsbD_setWidth,
    BitVec.getLsbD_ushiftRight, bound, place, inside, above, decide_true, decide_false,
    Bool.true_and, Bool.not_false]

/-- A register that starts high and falls at the first of six bytes that differs. -/
theorem all_step {Agrees : Nat → Prop} (taken : Nat) :
    (∀ index < min (taken + 1) 6, Agrees index) ↔
      (∀ index < min taken 6, Agrees index) ∧ (taken < 6 → Agrees taken) := by
  constructor
  · intro all
    exact ⟨fun index below => all index (by omega), fun early => all taken (by omega)⟩
  · rintro ⟨before, now⟩ index below
    by_cases new : index = taken
    · exact new ▸ now (by omega)
    · exact before index (by omega)

theorem falls_iff {expected compared byte : Byte} {register : Bool}
    (same : taken < 6 → compared = expected) :
    (if decide (taken < 6) && compared != byte then false else register) = true ↔
      register = true ∧ (taken < 6 → byte = expected) := by
  by_cases early : taken < 6
  · rw [same early]
    by_cases equal : expected = byte
    · simp [equal]
    · simp [early, equal, Ne.symm equal]
  · simp [early]

theorem accepts_iff (rHwmatch rBroadcast : Bool) (long : 6 ≤ taken)
    (station : rHwmatch = true ↔
      ∀ index < min taken 6, frame.getD index 0 = octet hwMac (5 - index))
    (all : rBroadcast = true ↔ ∀ index < min taken 6, frame.getD index 0 = 0xff) :
    (!rHwmatch && !rBroadcast) = true ↔ ¬ Accepts hwMac frame := by
  have ones : Addresses 0xffffffffffff frame ↔ ∀ index < 6, frame.getD index 0 = 0xff := by
    unfold Addresses
    refine forall_congr' fun index => imp_congr_right fun below => ?_
    have byte : octet (0xffffffffffff : BitVec 48) (5 - index) = 0xff := by
      revert below
      revert index
      decide
    rw [byte]
  rw [Nat.min_eq_right long] at station all
  rw [Accepts, ones, ← all, Addresses, ← station]
  cases rHwmatch <;> cases rBroadcast <;> simp

/-- The error comes with the seventh byte, and stays for as long as there are bytes. -/
theorem After.oErr_step (after : After iEn hwMac frame taken mac) (inside : taken < frame.length) :
    (mac.step false true iEn hwMac true iD).oErr = true ↔
      iEn = true ∧ 7 ≤ taken + 1 ∧ taken + 1 ≤ frame.length ∧ ¬ Accepts hwMac frame := by
  have running : taken ≤ frame.length := Nat.le_of_lt inside
  have six : (mac.rP.extractLsb' 5 2 == 2#2) = decide (taken = 6) := by
    rw [after.rP running]
    exact shifted_six taken
  have error := after.oErr
  simp only [RxeHwMac.step, six, Bool.false_eq_true, if_false, if_true, Bool.not_true,
    Bool.and_true]
  by_cases now : taken = 6
  · simp only [now, decide_true, Bool.and_true]
    cases iEn
    · simp only [Bool.false_eq_true, if_false, error, false_and]
    · simp only [if_true, true_and]
      rw [accepts_iff _ _ (by omega) (after.rHwmatch running) (after.rBroadcast running)]
      simp only [Nat.reduceAdd, Nat.le_refl, true_and]
      exact ⟨fun refused => ⟨by omega, refused⟩, fun known => known.2⟩
  · simp only [now, decide_false, Bool.and_false, Bool.false_eq_true, if_false, error]
    refine and_congr_right fun _ => ?_
    constructor
    · rintro ⟨late, -, refused⟩
      exact ⟨by omega, by omega, refused⟩
    · rintro ⟨late, -, refused⟩
      exact ⟨by omega, by omega, refused⟩

/-- A clock with a byte of the frame. -/
theorem After.takes (after : After iEn hwMac frame taken mac) (inside : taken < frame.length) :
    After iEn hwMac frame (taken + 1)
      (mac.step false true iEn hwMac true (frame.getD taken 0)) := by
  have running : taken ≤ frame.length := Nat.le_of_lt inside
  have pointer := after.rP running
  have five : mac.rP.getLsbD 5 = decide (taken < 6) := by rw [pointer]; exact shifted_five taken
  have errors := @After.oErr_step _ _ _ _ _ (frame.getD taken 0) after inside
  simp only [RxeHwMac.step, five, Bool.false_eq_true, if_false, if_true, Bool.not_true,
    Bool.false_and, Bool.and_true] at errors ⊢
  constructor
  case rP =>
    intro _
    simp only [pointer, ← BitVec.shiftLeft_add]
  case rHwmac =>
    intro _ early
    have now : taken < 6 := by omega
    simp only [now, decide_true, Bool.and_self, if_true, after.rHwmac running now,
      ← BitVec.shiftLeft_add]
    rw [Nat.mul_succ]
  case rHwmatch =>
    intro _
    rw [all_step, ← after.rHwmatch running]
    refine falls_iff fun now => ?_
    rw [after.rHwmac running now, shifted_byte hwMac now]
  case rBroadcast =>
    intro _
    rw [all_step, ← after.rBroadcast running]
    exact falls_iff fun _ => rfl
  case oV =>
    cases iEn
    · simp
      omega
    · simp only [Bool.true_and, decide_eq_true_eq]
      split <;> simp <;> omega
  case oD =>
    intro _ _
    rw [Nat.add_sub_cancel]
  case oErr => exact errors

/-- The clock behind the frame. -/
theorem After.ends (past : frame.length ≤ taken) :
    After iEn hwMac frame (taken + 1) (mac.step false true iEn hwMac false iD) := by
  constructor
  case rP => intro early; omega
  case rHwmac => intro early; omega
  case rHwmatch => intro early; omega
  case rBroadcast => intro early; omega
  case oV =>
    simp only [RxeHwMac.step, Bool.false_eq_true, if_false, if_true, ite_self, false_iff]
    omega
  case oD => intro _ early; omega
  case oErr =>
    simp only [RxeHwMac.step, Bool.false_eq_true, if_false, if_true, Bool.not_false, false_iff]
    omega

/-- One clock. -/
theorem After.step (after : After iEn hwMac frame taken mac) (offers : Offers frame taken iV iD) :
    After iEn hwMac frame (taken + 1) (mac.step false true iEn hwMac iV iD) := by
  rcases offers.cases with ⟨inside, rfl, rfl⟩ | ⟨past, rfl⟩
  · exact after.takes inside
  · exact .ends past

/-- The frame is through. -/
theorem After.rests (after : After iEn hwMac frame (frame.length + 1) mac) :
    (mac.step false true iEn hwMac false iD).Resting hwMac := by
  have hidden : mac.oV = false := Bool.eq_false_iff.mpr fun shown => by
    have when := after.oV.mp shown
    omega
  constructor <;> simp [RxeHwMac.step, hidden]

structure Through (iEn : Bool) (hwMac : BitVec 48) (frame : List Byte) (taken : Nat)
    (mac : RxeHwMac) : Prop where
  during : taken ≤ frame.length + 1 → After iEn hwMac frame taken mac
  done : frame.length + 1 < taken → mac.Resting hwMac

theorem Resting.through (resting : mac.Resting hwMac) (iEn : Bool) (frame : List Byte) :
    Through iEn hwMac frame 0 mac where
  during _ := resting.after iEn frame
  done late := absurd late (by omega)

theorem Through.step (through : Through iEn hwMac frame taken mac)
    (offers : Offers frame taken iV iD) :
    Through iEn hwMac frame (taken + 1) (mac.step false true iEn hwMac iV iD) where
  during early := (through.during (by omega)).step offers
  done late := by
    rw [offers.idle (by omega)]
    by_cases last : taken = frame.length + 1
    · subst last
      exact (through.during (Nat.le_refl _)).rests
    · exact (through.done (by omega)).idle iEn iD

/-- The clocks a byte waits longer where the destination is stripped. -/
def stripped (iEn : Bool) : Nat := if iEn then 6 else 0

theorem stripped_le (iEn : Bool) : stripped iEn ≤ 6 := by
  cases iEn <;> simp [stripped]

theorem strip_length (iEn : Bool) (frame : List Byte) :
    (strip iEn frame).length = frame.length - stripped iEn := by
  cases iEn <;> simp [strip, stripped]

theorem Through.oV (through : Through iEn hwMac frame taken mac) :
    mac.oV = true ↔ 1 + stripped iEn ≤ taken ∧ taken ≤ frame.length := by
  by_cases early : taken ≤ frame.length + 1
  · rw [(through.during early).oV]
    cases iEn
    · simp [stripped]
    · simp [stripped]
      omega
  · rw [(through.done (by omega)).oV]
    simp
    omega

theorem Through.oErr (through : Through iEn hwMac frame taken mac) :
    mac.oErr = true ↔
      iEn = true ∧ 7 ≤ taken ∧ taken ≤ frame.length ∧ ¬ Accepts hwMac frame := by
  by_cases early : taken ≤ frame.length + 1
  · exact (through.during early).oErr
  · rw [(through.done (by omega)).oErr]
    simp
    omega

/-- What is handed on is a frame again, six clocks later where it is stripped. -/
theorem Through.offers (through : Through iEn hwMac frame taken mac)
    (started : 1 + stripped iEn ≤ taken) :
    Offers (strip iEn frame) (taken - 1 - stripped iEn) mac.oV mac.oD := by
  refine ⟨?_, fun inside => ?_⟩
  · rw [through.oV, strip_length]
    omega
  · rw [strip_length] at inside
    rw [(through.during (by omega)).oD (by omega) (by omega)]
    cases iEn
    · rfl
    · simp only [strip, stripped, if_true, List.getD, List.getElem?_drop] at started ⊢
      rw [show 6 + (taken - 1 - 6) = taken - 1 by omega]

end RxeHwMac

namespace RxeIpChk

/-! ### `rxeipchk` -/

variable {frame : List Byte} {taken : Nat} {ip : RxeIpChk} {iEn iV : Bool} {iD : Byte}

/-- The check beside the filters, listening to the same frame as `rxehwmac`. -/
structure Through (iEn : Bool) (frame : List Byte) (taken : Nat) (ip : RxeIpChk) : Prop where
  during : iEn = true → taken ≤ frame.length → Heard frame taken ip
  done : frame.length < taken → ip.Resting
  off : iEn = false → ip.oErr = false

theorem Resting.through (resting : ip.Resting) (iEn : Bool) (frame : List Byte) :
    Through iEn frame 0 ip where
  during _ _ := resting.heard frame
  done late := absurd late (by omega)
  off _ := resting.oErr

theorem off_step (quiet : ip.oErr = false) (iReset iCe : Bool) :
    (ip.step ⟨iReset, iCe, false, iV, iD⟩).oErr = false := by
  simp only [RxeIpChk.step]
  cases iReset
  · cases iCe
    · exact quiet
    · cases iV
      · rfl
      · cases ip.rV
        · exact quiet
        · simp [process, quiet]
  · rfl

theorem Through.step (through : Through iEn frame taken ip) (offers : Offers frame taken iV iD) :
    Through iEn frame (taken + 1) (ip.step ⟨false, true, iEn, iV, iD⟩) where
  during enabled early := by
    have data := offers.data (by omega)
    have valid := offers.valid.mpr (by omega)
    exact (through.during enabled (by omega)).step ⟨rfl, enabled, fun _ => valid⟩ rfl data
  done late := .gap (.inr ⟨rfl, offers.idle (by omega)⟩)
  off disabled := by
    subst disabled
    exact off_step (through.off rfl) false true

theorem Through.oErr (through : Through iEn frame taken ip) :
    ip.oErr = true ↔ iEn = true ∧ taken ≤ frame.length ∧ ErrorBy frame taken := by
  cases enabled : iEn
  · simp [through.off enabled]
  · by_cases early : taken ≤ frame.length
    · rw [(through.during enabled early).judged.oErr]
      simp [early, ErrorBy]
    · rw [(through.done (by omega)).oErr]
      simp [early]

end RxeIpChk

namespace RxeWrite

/-! ### `rxewrite` -/

variable {aw : Nat}

/-- The bytes of a big endian word. -/
def byteOf (word : BitVec 32) (index : Nat) : Byte := octet word (3 - index)

/-- The word of the last of the first `taken` bytes, filled so far. -/
def Fills (stored : List Byte) (taken : Nat) (word : BitVec 32) : Prop :=
  ∀ index < 4, byteOf word index =
    if 4 * ((taken - 1) / 4) + index < taken then
      stored.getD (4 * ((taken - 1) / 4) + index) 0
    else 0

/-- The circuit when it has been offered `taken` clocks of the bytes to store. -/
structure After (stored : List Byte) (taken : Nat) (wr : RxeWrite aw) : Prop where
  oV : wr.oV = true ↔ 1 ≤ taken ∧ taken ≤ stored.length
  lclAddr : wr.lclAddr = BitVec.ofNat (aw + 3) taken
  oAddr : 1 ≤ taken → taken ≤ stored.length → wr.oAddr = BitVec.ofNat aw ((taken - 1) / 4)
  oData : 1 ≤ taken → taken ≤ stored.length → Fills stored taken wr.oData

variable {stored : List Byte} {taken : Nat} {wr : RxeWrite aw} {iV : Bool} {iD : Byte}

theorem After.start (stored : List Byte) : After stored 0 (init : RxeWrite aw) where
  oV := by simp [init]
  lclAddr := rfl
  oAddr some := absurd some (by decide)
  oData some := absurd some (by decide)

theorem byteOf_place (word : BitVec 32) (position : BitVec 2) (byte : Byte) {index : Nat}
    (inside : index < 4) :
    byteOf (place word position byte) index =
      if index < position.toNat then byteOf word index
      else if index = position.toNat then byte else 0 := by
  have spots : position = 0 ∨ position = 1 ∨ position = 2 ∨ position = 3 := by
    revert position
    decide
  have indexes : index = 0 ∨ index = 1 ∨ index = 2 ∨ index = 3 := by omega
  -- sixteen cases, each of them a byte of a concatenation
  rcases spots with rfl | rfl | rfl | rfl <;> rcases indexes with rfl | rfl | rfl | rfl <;>
    (apply BitVec.eq_of_getLsbD_eq
     intro bit bound
     simp [place, byteOf, octet, bound]
     try grind)

theorem place_fills {word : BitVec 32}
    (fills : 1 ≤ taken → Fills stored taken word) :
    Fills stored (taken + 1)
      (place word (BitVec.ofNat 2 taken) (stored.getD taken 0)) := by
  intro index below
  have position : (BitVec.ofNat 2 taken).toNat = taken % 4 := BitVec.toNat_ofNat ..
  rw [byteOf_place _ _ _ below, position, Nat.add_sub_cancel]
  by_cases before : index < taken % 4
  · have begun : 1 ≤ taken := by omega
    rw [if_pos before, if_pos (by omega), fills begun index below,
      show 4 * ((taken - 1) / 4) = 4 * (taken / 4) by omega, if_pos (by omega)]
  · rw [if_neg before]
    by_cases now : index = taken % 4
    · rw [if_pos now, if_pos (by omega), show 4 * (taken / 4) + index = taken by omega]
    · rw [if_neg now, if_neg (by omega)]

theorem extract_ofNat {aw wide : Nat} (low : aw + 2 ≤ wide) (taken : Nat) :
    (BitVec.ofNat wide taken).extractLsb' 2 aw = BitVec.ofNat aw (taken / 4) := by
  apply BitVec.eq_of_getLsbD_eq
  intro bit bound
  rw [BitVec.getLsbD_extractLsb', BitVec.getLsbD_ofNat, BitVec.getLsbD_ofNat,
    show 4 = 2 ^ 2 from rfl, Nat.testBit_div_two_pow, Nat.add_comm bit 2]
  simp [bound, show 2 + bit < wide by omega]

/-- One clock. -/
theorem After.step (after : After stored taken wr) (offers : Offers stored taken iV iD)
    (some : 0 < stored.length) (running : taken ≤ stored.length) :
    After stored (taken + 1) (wr.step false true iV iD) := by
  have output := after.oV
  have busy : (!iV && !wr.oV) = false := by
    rcases offers.cases with ⟨inside, rfl, -⟩ | ⟨past, rfl⟩
    · rfl
    · simp [output.mpr ⟨by omega, running⟩]
  simp only [RxeWrite.step, busy, Bool.false_eq_true, if_false, if_true]
  constructor
  case oV =>
    simp only [offers.valid]
    omega
  case lclAddr =>
    rw [after.lclAddr, BitVec.ofNat_add]
    rfl
  case oAddr =>
    intro _ inside
    rw [after.lclAddr, Nat.add_sub_cancel]
    exact extract_ofNat (by omega) taken
  case oData =>
    intro _ inside
    have narrow : (BitVec.ofNat (aw + 3) taken).setWidth 2 = BitVec.ofNat 2 taken :=
      BitVec.setWidth_ofNat_of_le (by omega) taken
    rw [offers.data (by omega), after.lclAddr, narrow]
    exact place_fills fun begun => after.oData begun running

theorem After.rests (after : After stored (stored.length + 1) wr) :
    wr.step false true false iD = init := by
  have hidden : wr.oV = false := Bool.eq_false_iff.mpr fun shown => by
    have when := after.oV.mp shown
    omega
  simp [RxeWrite.step, hidden]

/-- Where nothing is to be stored the circuit never leaves its rest. -/
structure Through (stored : List Byte) (taken : Nat) (wr : RxeWrite aw) : Prop where
  during : taken ≤ stored.length + 1 → stored ≠ [] → After stored taken wr
  done : stored.length + 1 < taken ∨ stored = [] → wr = init

theorem Through.step (through : Through stored taken wr) (offers : Offers stored taken iV iD) :
    Through stored (taken + 1) (wr.step false true iV iD) where
  during early some :=
    (through.during (by omega) some).step offers (List.length_pos_of_ne_nil some) (by omega)
  done late := by
    by_cases none : stored = []
    · rw [through.done (.inr none), offers.idle (by simp [none])]
      rfl
    · have past : stored.length + 1 ≤ taken := by
        rcases late with late | empty
        · omega
        · exact absurd empty none
      rw [offers.idle (by omega)]
      by_cases last : taken = stored.length + 1
      · subst last
        exact (through.during (Nat.le_refl _) none).rests
      · rw [through.done (.inl (by omega))]
        rfl

theorem Through.start (stored : List Byte) : Through stored 0 (init : RxeWrite aw) where
  during _ _ := .start stored
  done _ := rfl

theorem Through.oV (through : Through stored taken wr) :
    wr.oV = true ↔ 1 ≤ taken ∧ taken ≤ stored.length := by
  by_cases some : stored = []
  · rw [through.done (.inr some), some]
    simp [init]
    omega
  · by_cases early : taken ≤ stored.length + 1
    · exact (through.during early some).oV
    · rw [through.done (.inl (by omega))]
      simp [init]
      omega

end RxeWrite

end ZipVersa.Enet
