import ZipVersa.Enet.CrcPackets

/-! What `rxecrc` leaves of a frame that comes with a few bytes after its check
sequence. The lane a byte is cut from at the end of the frame has by then moved
on to the next one, so one byte fewer is cut than the position of the match asks
for. -/

set_option autoImplicit false

namespace ZipVersa.Enet

open Lib

/-- A frame comes in with `i_en`: at the enabled clocks its bytes and then
silence for at least the four clocks it takes them to get through. -/
structure Received (bytes : List Byte) (clocks : List CrcClock) : Prop where
  checked : ∀ clock ∈ clocks, clock.iCe = true → clock.iEn = true
  wires : ∃ gap, 4 ≤ gap ∧
    (clocks.filter CrcClock.iCe).map (fun clock => carried clock.iV clock.iD) =
      bytes.map some ++ List.replicate gap none

namespace RxeCrc

def clock (crc : RxeCrc) (clock : CrcClock) : RxeCrc :=
  crc.step false clock.iCe clock.iEn clock.iV clock.iD

/-- What the next stage takes at a clock. -/
def out (crc : RxeCrc) (clock : CrcClock) : List (Option Byte) :=
  if clock.iCe then [carried crc.oV crc.oD] else []

/-- `o_err` at a clock. -/
def oErr (crc : RxeCrc) (_ : CrcClock) : List Bool := [crc.rErr]

/-- The bytes come out as one burst, without an error. -/
structure Emits (bytes : List Byte) (crc : RxeCrc) (clocks : List CrcClock) : Prop where
  burst : ∃ lead gap, observed clock out crc clocks =
    List.replicate lead none ++ bytes.map some ++ List.replicate gap none
  quiet : ∀ error ∈ observed clock oErr crc clocks, error = false

variable {bytes frame trailing : List Byte} {taken count : Nat} {crc : RxeCrc}
  {clocks : List CrcClock}

theorem clock_disabled (crc : RxeCrc) {clock : CrcClock} (disabled : clock.iCe = false) :
    crc.clock clock = crc := by
  simp [RxeCrc.clock, RxeCrc.step, disabled]

theorem offers_of_carried {iV : Bool} {iD : Byte} (input : carried iV iD = bytes[taken]?) :
    Offers bytes taken iV iD := by
  rcases carried_cases input with ⟨inside, rfl, rfl⟩ | ⟨past, rfl⟩
  · exact ⟨by simp [inside], fun _ => by simp [List.getD, inside]⟩
  · exact ⟨by simp [past], fun inside => absurd inside (by omega)⟩

theorem carried_of_offers {iV : Bool} {iD : Byte} (offers : Offers bytes taken iV iD) :
    carried iV iD = bytes[taken]? := by
  rcases offers.cases with ⟨inside, rfl, rfl⟩ | ⟨past, rfl⟩
  · simp [carried, List.getD, inside]
  · simp [carried, past]

/-- What shows behind the lanes: nothing for four clocks, then what is kept. -/
def emerging (bytes : List Byte) (taken : Nat) : Option Byte :=
  if 4 ≤ taken then (keeps bytes)[taken - 4]? else none

theorem Through.output (through : Through true bytes taken crc) :
    carried crc.oV crc.oD = emerging bytes taken := by
  unfold emerging
  by_cases late : 4 ≤ taken
  · rw [if_pos late]
    exact carried_of_offers (through.offers late)
  · have hidden : crc.oV = false := Bool.eq_false_iff.mpr fun shown =>
      late ((through.during (by omega)).oV.mp shown).1
    rw [if_neg late, hidden]
    rfl

/-- A frame passes, whatever the other clocks carry. -/
theorem Through.run (through : Through true bytes taken crc)
    (checked : ∀ clock ∈ clocks, clock.iCe = true → clock.iEn = true)
    (wires : (clocks.filter CrcClock.iCe).map (fun clock => carried clock.iV clock.iD) =
      (List.range' taken count).map fun taken => bytes[taken]?) :
    observed clock out crc clocks = (List.range' taken count).map (emerging bytes) ∧
      (¬ Unmatched bytes → ∀ error ∈ observed clock oErr crc clocks, error = false) := by
  induction clocks generalizing crc taken count with
  | nil =>
      cases count with
      | zero => exact ⟨rfl, fun _ error member => nomatch member⟩
      | succ count => cases wires
  | cons first rest ih =>
      have later : ∀ clock ∈ rest, clock.iCe = true → clock.iEn = true := fun clock member =>
        checked clock (.tail _ member)
      have calm : ¬ Unmatched bytes → crc.rErr = false := fun found =>
        Bool.eq_false_iff.mpr fun error => found (through.rErr.mp error).2.2.2
      cases enabled : first.iCe with
      | false =>
          rw [List.filter_cons_of_neg (by simp [enabled])] at wires
          obtain ⟨output, quiet⟩ := ih through later wires
          simp only [observed, clock_disabled crc enabled]
          refine ⟨by simp [out, enabled, output], fun found error member => ?_⟩
          rcases List.mem_cons.mp member with rfl | after
          · exact calm found
          · exact quiet found error after
      | true =>
          rw [List.filter_cons_of_pos (by simp [enabled]), List.map_cons] at wires
          cases count with
          | zero => cases wires
          | succ count =>
              rw [List.range'_succ, List.map_cons] at wires
              obtain ⟨input, others⟩ := List.cons.inj wires
              have stepped : crc.clock first = crc.step false true true first.iV first.iD := by
                rw [RxeCrc.clock, enabled, checked first (.head _) enabled]
              have moved := through.step (offers_of_carried input)
              rw [← stepped] at moved
              obtain ⟨output, quiet⟩ := ih moved later others
              refine ⟨?_, fun found error member => ?_⟩
              · simp only [observed, out, enabled, if_true, List.singleton_append, output,
                  through.output, List.range'_succ, List.map_cons]
              · rcases List.mem_cons.mp member with rfl | after
                · exact calm found
                · exact quiet found error after

/-- What is kept comes out as one burst. -/
theorem emerging_eq (bytes : List Byte) (gap : Nat) :
    ∃ rest, (List.range' 0 (bytes.length + (gap + 4))).map (emerging bytes) =
      List.replicate 4 none ++ (keeps bytes).map some ++ List.replicate rest none := by
  have below := kept_le bytes
  refine ⟨bytes.length - kept bytes + gap, ?_⟩
  have total : bytes.length + (gap + 4) =
      4 + (kept bytes + (bytes.length - kept bytes + gap)) := by omega
  rw [total, ← List.range'_append_1, List.map_append, List.append_assoc]
  congr 1
  rw [← keeps_length, offered_eq, Nat.zero_add, List.range'_eq_map_range,
    List.range'_eq_map_range, List.map_map, List.map_map]
  refine List.map_congr_left fun index _ => ?_
  simp [emerging]

/-! ### The check sequence of a frame -/

/-- Both circuits have the same equations. -/
theorem addecrc_rxecrc : AddECrc.crcNext = crcNext := by
  have same : AddECrc.crcEqn = crcEqn := by
    funext below
    induction below with
    | zero => rfl
    | succ below ih => rw [AddECrc.crcEqn, crcEqn, ih]; rfl
  funext register byte
  rw [AddECrc.crcNext, crcNext, AddECrc.eqn, eqn, same]

theorem crcNext_eq (register : BitVec 32) (byte : Byte) :
    crcNext register byte = crcByte ieeePoly register byte := by
  rw [← addecrc_rxecrc, AddECrc.crcNext_eq]

theorem crcOf_eq (bytes : List Byte) : ~~~ crcOf bytes = crc32 bytes := by
  rw [crc32, ← AddECrc.checked_eq, AddECrc.checked, addecrc_rxecrc]
  rfl

theorem trailed_length (frame trailing : List Byte) :
    (frame ++ crc32Bytes frame ++ trailing).length = frame.length + 4 + trailing.length := by
  simp [crc32Bytes, Nat.add_assoc]

/-- The check sequence is found that many bytes back. -/
theorem matched_trailing (frame trailing : List Byte) :
    Matched (frame ++ crc32Bytes frame ++ trailing)
      (frame ++ crc32Bytes frame ++ trailing).length trailing.length := by
  have check : (crc32Bytes frame).length = 4 := by simp [crc32Bytes]
  have length := trailed_length frame trailing
  refine ⟨by omega, ?_⟩
  have start : (frame ++ crc32Bytes frame ++ trailing).length - (trailing.length + 4) =
      frame.length := by omega
  rw [start]
  intro index below
  have byte : (crc32Bytes frame).getD index 0 = octet (crc32 frame) index := by
    simp [crc32Bytes, List.getD, below]
  have behind : frame.length ≤ frame.length + index := Nat.le_add_right _ _
  have among : index < (crc32Bytes frame).length := by omega
  rw [List.append_assoc, List.take_left, crcOf_eq, ← byte, List.getD, List.getD,
    List.getElem?_append_right behind, Nat.add_sub_cancel_left, List.getElem?_append_left among]

/-- One byte of the trailing ones stays. -/
theorem kept_trailing (short : trailing.length ≤ 3)
    (first : ∀ back ≤ 3, trailing.length < back →
      ¬ Matched (frame ++ crc32Bytes frame ++ trailing)
        (frame ++ crc32Bytes frame ++ trailing).length back) :
    kept (frame ++ crc32Bytes frame ++ trailing) =
      frame.length + 4 + min 1 trailing.length := by
  have found := matched_trailing frame trailing
  have length := trailed_length frame trailing
  unfold kept
  by_cases three : trailing.length = 3
  · rw [three] at found
    rw [if_pos found]
    omega
  · rw [if_neg (first 3 (by omega) (by omega))]
    by_cases two : trailing.length = 2
    · rw [two] at found
      rw [if_pos found]
      omega
    · rw [if_neg (first 2 (by omega) (by omega))]
      omega

theorem Emits.unique {left right : List Byte} (one : Emits left crc clocks)
    (other : Emits right crc clocks) : left = right := by
  obtain ⟨_, _, first⟩ := one.burst
  obtain ⟨_, _, second⟩ := other.burst
  have bytes := congrArg List.reduceOption (first.symm.trans second)
  rwa [reduceOption_burst, reduceOption_burst] at bytes

/-- What is kept of a frame that has its check sequence is handed on. -/
theorem Resting.emits (resting : crc.Resting) (received : Received bytes clocks)
    (found : ¬ Unmatched bytes) : Emits (keeps bytes) crc clocks := by
  obtain ⟨gap, enough, wires⟩ := received.wires
  obtain ⟨more, rfl⟩ := Nat.exists_eq_add_of_le' enough
  rw [offered_eq] at wires
  obtain ⟨output, quiet⟩ := (resting.through true bytes).run received.checked wires
  obtain ⟨rest, burst⟩ := emerging_eq bytes more
  exact ⟨⟨4, rest, output.trans burst⟩, quiet found⟩

/-- A frame with its check sequence and at most three bytes behind it, where no
earlier bytes happen to match, leaves the circuit as the frame and its check
sequence if and only if nothing was behind it. -/
theorem rxecrc_trims_iff (resting : crc.Resting) (short : trailing.length ≤ 3)
    (first : ∀ back ≤ 3, trailing.length < back →
      ¬ Matched (frame ++ crc32Bytes frame ++ trailing)
        (frame ++ crc32Bytes frame ++ trailing).length back)
    (received : Received (frame ++ crc32Bytes frame ++ trailing) clocks) :
    Emits (frame ++ crc32Bytes frame) crc clocks ↔ trailing = [] := by
  have size := kept_trailing short first
  have found : ¬ Unmatched (frame ++ crc32Bytes frame ++ trailing) := fun unmatched =>
    unmatched.2 trailing.length (by omega) (matched_trailing frame trailing)
  have emits := resting.emits received found
  constructor
  · intro exact'
    have same := congrArg List.length (emits.unique exact')
    rw [keeps_length, size, List.length_append, crc32Bytes, List.length_map,
      List.length_range] at same
    exact List.eq_nil_of_length_eq_zero (by omega)
  · rintro rfl
    have whole : keeps (frame ++ crc32Bytes frame ++ []) = frame ++ crc32Bytes frame := by
      rw [keeps, size, List.append_nil]
      exact List.take_of_length_le (by simp [crc32Bytes])
    rwa [whole] at emits

/-! ### A frame at full speed -/

def heard (bytes : List Byte) : List CrcClock :=
  bytes.map (fun byte => ⟨true, true, true, byte⟩) ++ List.replicate 4 ⟨true, true, false, 0⟩

theorem heard_received (bytes : List Byte) : Received bytes (heard bytes) where
  checked := by
    intro clock member _
    rcases List.mem_append.mp member with byte | idle
    · obtain ⟨_, _, rfl⟩ := List.mem_map.mp byte
      rfl
    · rw [List.eq_of_mem_replicate idle]
  wires := by
    refine ⟨4, Nat.le_refl 4, ?_⟩
    have enabled : (heard bytes).filter CrcClock.iCe = heard bytes := by
      rw [List.filter_eq_self]
      intro clock member
      rcases List.mem_append.mp member with byte | idle
      · obtain ⟨_, _, rfl⟩ := List.mem_map.mp byte
        rfl
      · rw [List.eq_of_mem_replicate idle]
    rw [enabled, heard, List.map_append, List.map_map, List.map_replicate]
    rfl

theorem init_resting : init.Resting :=
  ⟨rfl, rfl, rfl, rfl, rfl, rfl, rfl, rfl, rfl, rfl, rfl, rfl, rfl⟩

/-- The shortest frame, without its check sequence. -/
def shortFrame : List Byte := List.replicate 60 0

theorem bare_frame_emits : Emits (shortFrame ++ crc32Bytes shortFrame) init
    (heard (shortFrame ++ crc32Bytes shortFrame ++ [])) :=
  (rxecrc_trims_iff init_resting (by decide) (by decide +kernel) (heard_received _)).mpr rfl

/-- One byte behind the check sequence is handed on with the frame. -/
theorem trailing_byte_kept : ¬ ∀ (crc : RxeCrc) (frame trailing : List Byte)
    (clocks : List CrcClock), crc.Resting → 60 ≤ frame.length → trailing.length ≤ 3 →
    (∀ back ≤ 3, trailing.length < back →
      ¬ Matched (frame ++ crc32Bytes frame ++ trailing)
        (frame ++ crc32Bytes frame ++ trailing).length back) →
    Received (frame ++ crc32Bytes frame ++ trailing) clocks →
    Emits (frame ++ crc32Bytes frame) crc clocks := by
  intro always
  have alone : ∀ back ≤ 3, [(0x55 : Byte)].length < back →
      ¬ Matched (shortFrame ++ crc32Bytes shortFrame ++ [0x55])
        (shortFrame ++ crc32Bytes shortFrame ++ [0x55]).length back := by decide +kernel
  have emits := always init shortFrame [0x55] _ init_resting (by decide) (by decide) alone
    (heard_received _)
  have left := init_resting.emits (heard_received (shortFrame ++ crc32Bytes shortFrame ++ [0x55]))
    fun unmatched => unmatched.2 1 (by decide) (matched_trailing shortFrame [0x55])
  have same := congrArg List.length (left.unique emits)
  rw [keeps_length, kept_trailing (by decide) alone] at same
  revert same
  decide

end RxeCrc

end ZipVersa.Enet
