import ZipVersa.Lib.Clocked
import ZipVersa.Net.Checksum
import ZipVersa.Net.RoundTrip

/-! `rxeipchk` against the IPv4 header checksum. The circuit takes a byte at
each enabled clock, puts pairs of them together and sums the pairs of the
header one clock behind; the software of `ipproto.c` fills the checksum in. -/

set_option autoImplicit false

namespace ZipVersa.Enet

open Lib

structure RxeIpChk where
  rV : Bool
  rWord : BitVec 16
  rCnt : BitVec 7
  rIdx : BitVec 6
  rIp : Bool
  rHlen : BitVec 6
  rCheck : BitVec 17
  oErr : Bool
  deriving DecidableEq, Repr

namespace RxeIpChk

/-- The wires into the circuit at a clock. -/
structure Input where
  iReset : Bool
  iCe : Bool
  iEn : Bool
  iV : Bool
  iD : Byte
  deriving DecidableEq, Repr

/-- The version and header length of a halfword that holds them. -/
def version (word : BitVec 16) : BitVec 4 := word.extractLsb' 12 4

def headerWords (word : BitVec 16) : BitVec 4 := word.extractLsb' 8 4

/-- `(r_check[15:1] != 15'h7fff)||((r_check[0]^r_check[16])!=1'b1)`. -/
def checkFails (check : BitVec 17) : Bool :=
  check.extractLsb' 1 15 != 0x7fff#15 || (check.getLsbD 0 ^^ check.getLsbD 16) != true

/-- `r_check[15:0] + r_word + { 15'h0, r_check[16]}`. -/
def checkAdd (check : BitVec 17) (word : BitVec 16) : BitVec 17 :=
  (check.setWidth 16).setWidth 17 + word.setWidth 17 + check >>> 16

/-- The second process, on a completed halfword. -/
def process (chk : RxeIpChk) (iEn : Bool) : RxeIpChk :=
  { chk with
    rIp :=
      if chk.rIdx = 6 then chk.rWord == 0x0800#16
      else if chk.rIp && chk.rIdx == 7 then
        version chk.rWord == 4#4 && (5#4).ule (headerWords chk.rWord)
      else chk.rIp
    rHlen :=
      if chk.rIdx = 7 then (headerWords chk.rWord ++ 0#1).setWidth 6 + 7#6 else chk.rHlen
    oErr :=
      if (8#6).ult chk.rIdx && chk.rIdx == chk.rHlen then
        chk.oErr || (chk.rIp && iEn && checkFails chk.rCheck)
      else if chk.rIdx = 7 then
        chk.rIp && iEn &&
          (version chk.rWord != 4#4 || (headerWords chk.rWord).ult 5#4)
      else chk.oErr
    rCheck := if chk.rIp then checkAdd chk.rCheck chk.rWord else chk.rCheck }

/-- What a reset and the end of a packet do. -/
def clear (chk : RxeIpChk) : RxeIpChk :=
  { chk with
    rV := false, rCnt := 0, rIdx := 0, rIp := false, rHlen := 0, rCheck := 0, oErr := false }

def step (chk : RxeIpChk) (input : Input) : RxeIpChk :=
  if input.iReset then chk.clear
  else if input.iCe then
    if !input.iV then chk.clear
    else
      { (if chk.rV then chk.process input.iEn else chk) with
        rCnt := if chk.rCnt = 127 then chk.rCnt else chk.rCnt + 1
        rV := if chk.rCnt = 127 then false else chk.rCnt.getLsbD 0
        rIdx := (chk.rCnt >>> 1).setWidth 6
        rWord := chk.rWord.setWidth 8 ++ input.iD }
  else chk

/-- `o_err` is high at some time from now to the end of the clocks. -/
def raised (chk : RxeIpChk) : List Input → Bool
  | [] => chk.oErr
  | input :: rest => chk.oErr || (chk.step input).raised rest

/-- The circuit between packets. `r_word` and, before the first reset, `r_hlen`
hold anything. -/
structure Resting (chk : RxeIpChk) : Prop where
  rV : chk.rV = false
  rCnt : chk.rCnt = 0
  rIp : chk.rIp = false
  rCheck : chk.rCheck = 0
  oErr : chk.oErr = false

theorem Resting.gap {chk : RxeIpChk} {input : Input}
    (gap : input.iReset = true ∨ input.iCe = true ∧ input.iV = false) :
    (chk.step input).Resting := by
  rcases gap with reset | ⟨enabled, idle⟩
  · simp only [step, reset, if_true]
    exact ⟨rfl, rfl, rfl, rfl, rfl⟩
  · by_cases reset : input.iReset = true
    · simp only [step, reset, if_true]
      exact ⟨rfl, rfl, rfl, rfl, rfl⟩
    · simp only [step, reset, enabled, idle, if_true, Bool.not_false]
      exact ⟨rfl, rfl, rfl, rfl, rfl⟩

/-- A clock of a packet: checking enabled, no reset, and the data valid whenever
the clock counts. -/
structure Input.During (input : Input) : Prop where
  reset : input.iReset = false
  enabled : input.iEn = true
  valid : input.iCe = true → input.iV = true

/-- The bytes the clocks bring. -/
def carried (clocks : List Input) : List Byte :=
  (clocks.filter (·.iCe)).map (·.iD)

/-! ### The verdict on a frame -/

def halfword (frame : List Byte) (index : Nat) : BitVec 16 :=
  frame.getD (2 * index) 0 ++ frame.getD (2 * index + 1) 0

/-- The IHL field, if the frame is an IP frame. -/
def ihl (frame : List Byte) : Nat := (headerWords (halfword frame 7)).toNat

/-- The halfwords from the IP header on. -/
def headerHalfwords (frame : List Byte) (count : Nat) : List Nat :=
  (List.range count).map fun index => (halfword frame (7 + index)).toNat

/-- `EtherType` 0x0800. -/
def IsIp (frame : List Byte) : Prop := halfword frame 6 = 0x0800#16

/-- Version 4 with a header of at least five words. -/
def Versioned (frame : List Byte) : Prop :=
  version (halfword frame 7) = 4#4 ∧ 5 ≤ ihl frame

/-- The header sums to all ones. -/
def Summed (frame : List Byte) : Prop :=
  onesSum 65535 (headerHalfwords frame (2 * ihl frame)) = 65535

instance (frame : List Byte) : Decidable (IsIp frame) := inferInstanceAs (Decidable (_ = _))
instance (frame : List Byte) : Decidable (Versioned frame) := inferInstanceAs (Decidable (_ ∧ _))
instance (frame : List Byte) : Decidable (Summed frame) := inferInstanceAs (Decidable (_ = _))

/-- The frames that are to be refused. -/
def Rejects (frame : List Byte) : Prop :=
  IsIp frame ∧ (version (halfword frame 7) ≠ 4#4 ∨ ihl frame < 5 ∨ ¬ Summed frame)

theorem rejects_iff (frame : List Byte) :
    Rejects frame ↔ IsIp frame ∧ (¬ Versioned frame ∨ ¬ Summed frame) := by
  unfold Rejects Versioned
  rw [Decidable.not_and_iff_or_not, Nat.not_le, or_assoc]

/-! ### The sum -/

/-- The word a check register stands for, its carry brought around. -/
def checkValue (check : BitVec 17) : Nat := check.toNat % 65536 + check.toNat / 65536

theorem checkFails_iff (check : BitVec 17) : checkFails check = true ↔ checkValue check ≠ 65535 := by
  have bound := check.isLt
  have middle : check.extractLsb' 1 15 = 0x7fff#15 ↔ check.toNat / 2 % 32768 = 32767 := by
    rw [← BitVec.toNat_inj, BitVec.extractLsb'_toNat, Nat.shiftRight_eq_div_pow]
    rfl
  have first : check.getLsbD 0 = decide (check.toNat % 2 = 1) := by
    rw [BitVec.getLsbD, Nat.testBit_zero]
  have last : check.getLsbD 16 = decide (check.toNat / 65536 % 2 = 1) := by
    rw [BitVec.getLsbD, Nat.testBit_eq_decide_div_mod_eq]
  unfold checkFails checkValue
  rw [first, last, Bool.or_eq_true, bne_iff_ne, bne_iff_ne, ne_eq, middle]
  have parity := Nat.mod_two_eq_zero_or_one check.toNat
  have carry : check.toNat / 65536 < 2 := by omega
  generalize check.toNat / 65536 = high at *
  rcases parity with even | odd
  · rw [even]
    have : high = 0 ∨ high = 1 := by omega
    rcases this with rfl | rfl <;> simp <;> omega
  · rw [odd]
    have : high = 0 ∨ high = 1 := by omega
    rcases this with rfl | rfl <;> simp <;> omega

theorem checkValue_lt (check : BitVec 17) : checkValue check < 2 * 65535 := by
  have bound := check.isLt
  unfold checkValue
  omega

/-- Adding a halfword brings the last carry around and leaves its own. -/
theorem checkAdd_folds (check : BitVec 17) (word : BitVec 16) :
    Folds 65535 (checkValue check + word.toNat) (checkValue (checkAdd check word)) := by
  have bound := check.isLt
  have fits := word.isLt
  have sum : (checkAdd check word).toNat = checkValue check + word.toNat := by
    unfold checkAdd checkValue
    simp only [BitVec.toNat_add, BitVec.toNat_setWidth, BitVec.toNat_ushiftRight,
      Nat.shiftRight_eq_div_pow]
    omega
  have around := Folds.around 65535 ((checkAdd check word).toNat % 65536)
    ((checkAdd check word).toNat / 65536)
  rw [Nat.mod_add_div, sum] at around
  unfold checkValue at around ⊢
  rw [sum]
  exact around

/-! ### A frame through the circuit -/

/-- The second process after the first `count` halfwords of a frame. -/
structure Judged (frame : List Byte) (count : Nat) (chk : RxeIpChk) : Prop where
  rIp : chk.rIp = true ↔ 6 < count ∧ IsIp frame ∧ (7 < count → Versioned frame)
  rHlen : 7 < count → chk.rHlen.toNat = 2 * ihl frame + 7
  rCheck : chk.rIp = true ∨ count ≤ 6 →
    Folds 65535 (headerHalfwords frame (count - 7)).sum (checkValue chk.rCheck)
  oErr : chk.oErr = true ↔ IsIp frame ∧ 7 < count ∧
    (¬ Versioned frame ∨ 2 * ihl frame + 7 < count ∧ ¬ Summed frame)

theorem headerHalfwords_succ (frame : List Byte) (count : Nat) :
    (headerHalfwords frame (count + 1)).sum =
      (headerHalfwords frame count).sum + (halfword frame (7 + count)).toNat := by
  simp [headerHalfwords, List.range_succ]

theorem summed_iff {frame : List Byte} {check : BitVec 17}
    (folds : Folds 65535 (headerHalfwords frame (2 * ihl frame)).sum (checkValue check)) :
    checkFails check = true ↔ ¬ Summed frame := by
  have fits : ∀ word ∈ headerHalfwords frame (2 * ihl frame), word ≤ 65535 := by
    intro word member
    obtain ⟨index, -, rfl⟩ := List.mem_map.mp member
    exact Nat.le_of_lt_succ (halfword frame (7 + index)).isLt
  rw [checkFails_iff, Summed, onesSum_eq_top_iff (by decide) fits, ne_eq,
    folds.eq_top_iff (checkValue_lt check)]

theorem versioned_iff (frame : List Byte) :
    (version (halfword frame 7) == 4#4 && (5#4).ule (headerWords (halfword frame 7))) = true ↔
      Versioned frame := by
  rw [Bool.and_eq_true, beq_iff_eq, BitVec.ule_iff_toNat_le]
  rfl

theorem unversioned_iff (frame : List Byte) :
    (version (halfword frame 7) != 4#4 || (headerWords (halfword frame 7)).ult 5#4) = true ↔
      ¬ Versioned frame := by
  rw [Bool.or_eq_true, bne_iff_ne, BitVec.ult_iff_toNat_lt, Versioned, Decidable.not_and_iff_or_not,
    Nat.not_le]
  rfl

theorem hlen_toNat (frame : List Byte) :
    ((headerWords (halfword frame 7) ++ 0#1).setWidth 6 + 7#6).toNat = 2 * ihl frame + 7 := by
  unfold ihl
  generalize headerWords (halfword frame 7) = words
  revert words
  decide

variable {frame : List Byte} {chk : RxeIpChk} {count : Nat}

/-- The register of the IP test after a halfword. -/
theorem Judged.process_rIp (judged : Judged frame count chk) (index : chk.rIdx.toNat = count)
    (word : chk.rWord = halfword frame count) :
    (chk.process true).rIp = true ↔
      6 < count + 1 ∧ IsIp frame ∧ (7 < count + 1 → Versioned frame) := by
  have six : chk.rIdx = 6 ↔ count = 6 := by rw [← BitVec.toNat_inj, index]; rfl
  have seven : chk.rIdx = 7 ↔ count = 7 := by rw [← BitVec.toNat_inj, index]; rfl
  have before := judged.rIp
  simp only [RxeIpChk.process, six, beq_iff_eq, Bool.and_eq_true, seven]
  split
  case isTrue type =>
    subst type
    rw [beq_iff_eq, word]
    exact ⟨fun ip => ⟨by omega, ip, fun late => absurd late (by omega)⟩, fun known => known.2.1⟩
  case isFalse other =>
    split
    case isTrue versionNow =>
      obtain ⟨ip, rfl⟩ := versionNow
      rw [word, versioned_iff]
      exact ⟨fun versioned => ⟨by omega, (before.mp ip).2.1, fun _ => versioned⟩,
        fun known => known.2.2 (by omega)⟩
    case isFalse later =>
      rw [before]
      constructor
      · rintro ⟨late, ip, versioned⟩
        refine ⟨by omega, ip, fun _ => ?_⟩
        by_cases now : count = 7
        · exact absurd ⟨before.mpr ⟨late, ip, versioned⟩, now⟩ later
        · exact versioned (by omega)
      · rintro ⟨late, ip, versioned⟩
        exact ⟨by omega, ip, fun past => versioned (by omega)⟩

/-- The sum takes in the halfword when the frame is known to be an IP frame. -/
theorem Judged.process_rCheck (judged : Judged frame count chk) (index : chk.rIdx.toNat = count)
    (word : chk.rWord = halfword frame count)
    (summing : (chk.process true).rIp = true ∨ count + 1 ≤ 6) :
    Folds 65535 (headerHalfwords frame (count + 1 - 7)).sum
      (checkValue (chk.process true).rCheck) := by
  have before := judged.rIp
  by_cases ip : chk.rIp = true
  · have late : 6 < count := (before.mp ip).1
    have sum := (judged.rCheck (.inl ip)).add (halfword frame count).toNat
    rw [show count + 1 - 7 = count - 7 + 1 by omega, headerHalfwords_succ,
      show 7 + (count - 7) = count by omega]
    simp only [RxeIpChk.process, ip, if_true, word]
    exact sum.trans (checkAdd_folds ..)
  · have early : count ≤ 6 := by
      rcases summing with now | early
      · by_contra late
        obtain ⟨-, isIp, versioned⟩ := (judged.process_rIp index word).mp now
        exact ip (before.mpr ⟨by omega, isIp, fun past => versioned (by omega)⟩)
      · omega
    have sum := judged.rCheck (.inr early)
    rw [show count - 7 = 0 by omega] at sum
    rw [show count + 1 - 7 = 0 by omega]
    simpa only [RxeIpChk.process, ip, Bool.false_eq_true, if_false] using sum

theorem Judged.process_oErr (judged : Judged frame count chk) (index : chk.rIdx.toNat = count)
    (word : chk.rWord = halfword frame count) :
    (chk.process true).oErr = true ↔ IsIp frame ∧ 7 < count + 1 ∧
      (¬ Versioned frame ∨ 2 * ihl frame + 7 < count + 1 ∧ ¬ Summed frame) := by
  have seven : chk.rIdx = 7 ↔ count = 7 := by rw [← BitVec.toNat_inj, index]; rfl
  have past : (8#6).ult chk.rIdx = true ↔ 8 < count := by
    rw [BitVec.ult_iff_toNat_lt, index]; rfl
  have before := judged.rIp
  have error := judged.oErr
  simp only [RxeIpChk.process, seven, Bool.and_eq_true, past, beq_iff_eq, Bool.and_true]
  split
  case isTrue last =>
    obtain ⟨late, atEnd⟩ := last
    have ending : count = 2 * ihl frame + 7 := by
      rw [← judged.rHlen (by omega), ← atEnd, index]
    rw [Bool.or_eq_true, Bool.and_eq_true, error, before]
    by_cases versioned : Versioned frame
    · by_cases ip : IsIp frame
      · have sum := judged.rCheck (.inl (before.mpr ⟨by omega, ip, fun _ => versioned⟩))
        rw [show count - 7 = 2 * ihl frame by omega] at sum
        rw [summed_iff sum]
        constructor
        · rintro (⟨-, -, unversioned | ⟨beyond, -⟩⟩ | ⟨-, unsummed⟩)
          · exact absurd versioned unversioned
          · omega
          · exact ⟨ip, by omega, .inr ⟨by omega, unsummed⟩⟩
        · rintro ⟨-, -, unversioned | ⟨-, unsummed⟩⟩
          · exact absurd versioned unversioned
          · exact .inr ⟨⟨by omega, ip, fun _ => versioned⟩, unsummed⟩
      · simp [ip]
    · simp only [versioned, not_false_eq_true, true_or, and_true, imp_false, Nat.not_lt]
      constructor
      · rintro (⟨ip, -⟩ | ⟨⟨_, _, early⟩, -⟩)
        · exact ⟨ip, by omega⟩
        · omega
      · rintro ⟨ip, -⟩
        exact .inl ⟨ip, by omega⟩
  case isFalse notLast =>
    split
    case isTrue now =>
      subst now
      rw [Bool.and_eq_true, word, unversioned_iff, before]
      constructor
      · rintro ⟨⟨-, ip, -⟩, unversioned⟩
        exact ⟨ip, by omega, .inl unversioned⟩
      · rintro ⟨ip, -, unversioned | ⟨early, -⟩⟩
        · exact ⟨⟨by omega, ip, fun late => absurd late (by omega)⟩, unversioned⟩
        · exact ⟨⟨by omega, ip, fun late => absurd late (by omega)⟩, by unfold Versioned; omega⟩
    case isFalse other =>
      rw [error]
      constructor
      · rintro ⟨ip, late, unversioned | ⟨beyond, unsummed⟩⟩
        · exact ⟨ip, by omega, .inl unversioned⟩
        · exact ⟨ip, by omega, .inr ⟨by omega, unsummed⟩⟩
      · rintro ⟨ip, late, unversioned | ⟨beyond, unsummed⟩⟩
        · exact ⟨ip, by omega, .inl unversioned⟩
        · refine ⟨ip, by omega, ?_⟩
          by_cases versioned : Versioned frame
          · have longer : 5 ≤ ihl frame := versioned.2
            have different : chk.rIdx.toNat ≠ chk.rHlen.toNat := fun same =>
              notLast ⟨by omega, BitVec.toNat_inj.mp same⟩
            rw [index, judged.rHlen (by omega)] at different
            exact .inr ⟨by omega, unsummed⟩
          · exact .inl versioned

/-- One halfword. -/
theorem Judged.process (judged : Judged frame count chk) (index : chk.rIdx.toNat = count)
    (word : chk.rWord = halfword frame count) : Judged frame (count + 1) (chk.process true) where
  rIp := judged.process_rIp index word
  rHlen late := by
    have seven : chk.rIdx = 7 ↔ count = 7 := by rw [← BitVec.toNat_inj, index]; rfl
    simp only [RxeIpChk.process, seven]
    split
    case isTrue now =>
      subst now
      rw [word, hlen_toNat]
    case isFalse other => exact judged.rHlen (by omega)
  rCheck := judged.process_rCheck index word
  oErr := judged.process_oErr index word

/-- The halfwords the second process has seen when `taken` bytes are in: it is a
byte behind, and the byte counter stops at 127. -/
def processed (taken : Nat) : Nat := min ((taken - 1) / 2) 63

/-- The circuit after the first `taken` bytes of a frame. -/
structure Heard (frame : List Byte) (taken : Nat) (chk : RxeIpChk) : Prop where
  rCnt : chk.rCnt.toNat = min taken 127
  rV : chk.rV = true ↔ taken % 2 = 0 ∧ 2 ≤ taken ∧ taken ≤ 126
  rIdx : chk.rV = true → chk.rIdx.toNat = taken / 2 - 1
  lastByte : 1 ≤ taken → chk.rWord.setWidth 8 = frame.getD (taken - 1) 0
  rWord : chk.rV = true → chk.rWord = halfword frame (taken / 2 - 1)
  judged : Judged frame (processed taken) chk

theorem Resting.heard (resting : chk.Resting) (frame : List Byte) : Heard frame 0 chk where
  rCnt := by rw [resting.rCnt]; rfl
  rV := by rw [resting.rV]; simp
  rIdx valid := by rw [resting.rV] at valid; cases valid
  lastByte some := absurd some (by decide)
  rWord valid := by rw [resting.rV] at valid; cases valid
  judged := {
    rIp := by rw [resting.rIp]; simp [processed]
    rHlen := fun late => absurd late (by decide)
    rCheck := fun _ => by rw [resting.rCheck]; exact .refl 65535 0
    oErr := by rw [resting.oErr]; simp [processed] }

variable {taken : Nat} {input : Input}

theorem Heard.judged_step (heard : Heard frame taken chk) :
    Judged frame (processed (taken + 1)) (if chk.rV then chk.process true else chk) := by
  have valid := heard.rV
  have judged := heard.judged
  split
  case isTrue now =>
    have when := valid.mp now
    have behind : processed taken = taken / 2 - 1 := by unfold processed; omega
    rw [behind] at judged
    rw [show processed (taken + 1) = taken / 2 - 1 + 1 by unfold processed; omega]
    exact judged.process (heard.rIdx now) (heard.rWord now)
  case isFalse later =>
    have when := mt valid.mpr later
    rw [show processed (taken + 1) = processed taken by unfold processed; omega]
    exact judged

theorem Heard.full_iff (heard : Heard frame taken chk) : chk.rCnt = 127 ↔ 127 ≤ taken := by
  rw [← BitVec.toNat_inj, heard.rCnt, show (127 : BitVec 7).toNat = 127 from rfl]
  omega

theorem Heard.counted (heard : Heard frame taken chk) :
    (if chk.rCnt = 127 then chk.rCnt else chk.rCnt + 1).toNat = min (taken + 1) 127 := by
  have counter := heard.rCnt
  split
  case isTrue stopped =>
    have late := heard.full_iff.mp stopped
    omega
  case isFalse running =>
    have early := mt heard.full_iff.mpr running
    rw [BitVec.toNat_add, counter, show (1 : BitVec 7).toNat = 1 from rfl]
    omega

/-- Every other byte completes a halfword of the header. -/
theorem Heard.completes_iff (heard : Heard frame taken chk) :
    (if chk.rCnt = 127 then false else chk.rCnt.getLsbD 0) = true ↔
      (taken + 1) % 2 = 0 ∧ 2 ≤ taken + 1 ∧ taken + 1 ≤ 126 := by
  split
  case isTrue stopped =>
    have late := heard.full_iff.mp stopped
    exact iff_of_false Bool.false_ne_true (by omega)
  case isFalse running =>
    have early := mt heard.full_iff.mpr running
    rw [BitVec.getLsbD, Nat.testBit_zero, decide_eq_true_iff, heard.rCnt]
    omega

/-- One byte. -/
theorem Heard.step (heard : Heard frame taken chk) (during : input.During)
    (counts : input.iCe = true) (data : input.iD = frame.getD taken 0) :
    Heard frame (taken + 1) (chk.step input) := by
  have last : (chk.rWord.setWidth 8 ++ input.iD).setWidth 8 = frame.getD taken 0 := by
    rw [← data]
    exact BitVec.setWidth_append_eq_right
  simp only [RxeIpChk.step, during.reset, counts, during.valid counts, during.enabled,
    Bool.false_eq_true, if_false, if_true, Bool.not_true]
  refine ⟨heard.counted, heard.completes_iff, fun valid => ?_, fun _ => last, fun valid => ?_, ?_⟩
  · obtain ⟨_, _, within⟩ := heard.completes_iff.mp valid
    rw [BitVec.toNat_setWidth, BitVec.toNat_ushiftRight, Nat.shiftRight_eq_div_pow, heard.rCnt,
      Nat.min_eq_left (by omega)]
    omega
  · obtain ⟨even, two, _⟩ := heard.completes_iff.mp valid
    have before : 2 * ((taken + 1) / 2 - 1) = taken - 1 := by omega
    rw [heard.lastByte (by omega), data, halfword, before, Nat.sub_add_cancel (by omega)]
  · have judged := heard.judged_step
    exact ⟨judged.rIp, judged.rHlen, judged.rCheck, judged.oErr⟩

/-- What `o_err` shows when `taken` bytes of a frame are in. -/
def ErrorBy (frame : List Byte) (taken : Nat) : Prop :=
  IsIp frame ∧ 7 < processed taken ∧
    (¬ Versioned frame ∨ 2 * ihl frame + 7 < processed taken ∧ ¬ Summed frame)

theorem ErrorBy.later {frame : List Byte} {taken later : Nat} (error : ErrorBy frame taken)
    (after : taken ≤ later) : ErrorBy frame later := by
  obtain ⟨ip, past, wrong⟩ := error
  have more : processed taken ≤ processed later := by unfold processed; omega
  refine ⟨ip, by omega, wrong.imp_right ?_⟩
  rintro ⟨beyond, unsummed⟩
  exact ⟨by omega, unsummed⟩

/-- The clocks of the rest of a frame: the error shows at their end if it shows
at all. -/
theorem Heard.raised_iff {clocks : List Input} (heard : Heard frame taken chk)
    (during : ∀ input ∈ clocks, input.During) (inside : taken ≤ frame.length)
    (rest : carried clocks = frame.drop taken) :
    chk.raised clocks = true ↔ ErrorBy frame frame.length := by
  induction clocks generalizing chk taken with
  | nil =>
      have finished : frame.length ≤ taken := List.drop_eq_nil_iff.mp rest.symm
      rw [raised, heard.judged.oErr, show taken = frame.length by omega]
      rfl
  | cons input clocks ih =>
      have laterDuring : ∀ input ∈ clocks, input.During := fun later member =>
        during later (.tail _ member)
      have now : chk.oErr = true → ErrorBy frame frame.length := fun error =>
        ErrorBy.later (heard.judged.oErr.mp error) inside
      rw [raised, Bool.or_eq_true]
      cases counts : input.iCe with
      | false =>
          have still : chk.step input = chk := by
            simp [RxeIpChk.step, counts, (during input (.head _)).reset]
          have left : carried clocks = frame.drop taken := by
            rw [← rest]
            simp [carried, counts]
          rw [still, ih heard laterDuring inside left]
          exact ⟨fun shown => shown.elim now id, .inr⟩
      | true =>
          have split : input.iD :: carried clocks = frame.drop taken := by
            rw [← rest]
            simp [carried, counts]
          have more : taken < frame.length := by
            by_contra none
            rw [List.drop_eq_nil_of_le (by omega)] at split
            cases split
          rw [List.drop_eq_getElem_cons more, List.cons.injEq] at split
          have data : input.iD = frame.getD taken 0 := by
            rw [split.1]
            simp [List.getD, more]
          rw [ih (heard.step (during input (.head _)) counts data) laterDuring more split.2]
          exact ⟨fun shown => shown.elim now id, .inr⟩

end RxeIpChk

/-! ### The header of `ip_set` -/

open Net RxeIpChk

/-- The header with the checksum of the header without it. -/
def ipHeader (length pktid subproto src dest : BitVec 32) : List Byte :=
  ipHeaderBytes length pktid subproto src dest (ipcksum ipHeadersize fun offset =>
    (ipHeaderBytes length pktid subproto src dest 0).getD offset 0)

theorem ipSet_header (pktid subproto src dest : BitVec 32) (pkt : NetPacket) :
    (ipSet pktid subproto src dest pkt).Begins
      (ipHeader pkt.pLength pktid subproto src dest) := by
  have unsummed := NetPacket.Begins.written pkt
    (ipHeaderBytes pkt.pLength pktid subproto src dest 0)
  have zeros : (pkt.putAll 0 (ipHeaderBytes pkt.pLength pktid subproto src dest 0)).Begins
      ([0x45, 0x00, octet pkt.pLength 1, octet pkt.pLength 0, octet pktid 1, octet pktid 0,
        0x00, 0x00, 0x80, octet subproto 0] ++ ([0x00, 0x00] ++
        [octet src 3, octet src 2, octet src 1, octet src 0,
          octet dest 3, octet dest 2, octet dest 1, octet dest 0])) := unsummed
  have cksum : (ipcksum ipHeadersize fun index =>
      (pkt.putAll 0 (ipHeaderBytes pkt.pLength pktid subproto src dest 0)).get index) =
      ipcksum ipHeadersize fun offset =>
        (ipHeaderBytes pkt.pLength pktid subproto src dest 0).getD offset 0 := by
    apply ipcksum_congr
    intro offset inside
    have bound : offset < (ipHeaderBytes pkt.pLength pktid subproto src dest 0).length := inside
    rw [unsummed offset bound, List.getD, List.getElem?_eq_getElem bound, Option.getD_some]
  have summed := zeros.putAll (show ([octet (ipcksum ipHeadersize fun offset =>
    (ipHeaderBytes pkt.pLength pktid subproto src dest 0).getD offset 0) 1,
    octet (ipcksum ipHeadersize fun offset =>
      (ipHeaderBytes pkt.pLength pktid subproto src dest 0).getD offset 0) 0]).length = 2 from rfl)
  rw [← cksum] at summed
  unfold ipHeader
  rw [← cksum]
  exact summed

theorem append_toNat (high low : Byte) : (high ++ low).toNat = (be16 high low).toNat := by
  have bound := low.isLt
  rw [BitVec.toNat_append, be16_toNat, ← Nat.shiftLeft_add_eq_or_of_lt bound, Nat.shiftLeft_eq]
  omega

theorem halfword_append {head : List Byte} {start : Nat} (even : head.length = 2 * start)
    (tail : List Byte) (index : Nat) :
    halfword (head ++ tail) (start + index) = halfword tail index := by
  unfold halfword
  rw [show 2 * (start + index) = head.length + 2 * index by omega,
    show head.length + 2 * index + 1 = head.length + (2 * index + 1) by omega]
  simp only [List.getD, List.getElem?_append_right (Nat.le_add_right _ _), Nat.add_sub_cancel_left]

/-- The header adds up to all ones. -/
theorem ipHeader_sum (length pktid subproto src dest : BitVec 32) :
    65535 ∣ (pairs (fun offset => (ipHeader length pktid subproto src dest).getD offset 0) 10).sum ∧
      (pairs (fun offset => (ipHeader length pktid subproto src dest).getD offset 0) 10).sum ≠ 0 := by
  obtain ⟨small, multiple, nonzero⟩ := ipcksum_completes fun offset =>
    (ipHeaderBytes length pktid subproto src dest 0).getD offset 0
  unfold ipHeader
  generalize (ipcksum ipHeadersize fun offset =>
    (ipHeaderBytes length pktid subproto src dest 0).getD offset 0) = cksum at *
  have whole : (pairs (fun offset =>
      (ipHeaderBytes length pktid subproto src dest cksum).getD offset 0) 10).sum =
      (pairs (fun offset =>
        (ipHeaderBytes length pktid subproto src dest 0).getD offset 0) 10).sum + cksum.toNat := by
    have field := congrArg BitVec.toNat (be16_octets_of_lt cksum small)
    have none : (be16 (octet (0 : BitVec 32) 1) (octet (0 : BitVec 32) 0)).toNat = 0 := by decide
    simp only [pairs, List.range_succ, List.range_zero, List.nil_append, List.map_append,
      List.map_cons, List.map_nil, List.sum_append, List.sum_cons, List.sum_nil, ipHeaderBytes,
      List.getD_cons_succ, List.getD_cons_zero, Nat.mul_zero, Nat.reduceMul, Nat.reduceAdd,
      field, none]
    omega
  rw [whole]
  exact ⟨multiple, nonzero⟩

theorem ipHeader_passes {macs : List Byte} (addresses : macs.length = 12)
    (length pktid subproto src dest : BitVec 32) (rest : List Byte) (taken : Nat) :
    ¬ ErrorBy (macs ++ [0x08, 0x00] ++ ipHeader length pktid subproto src dest ++ rest) taken := by
  have header (index : Nat) (inside : index < 10) :
      halfword (macs ++ [0x08, 0x00] ++ ipHeader length pktid subproto src dest ++ rest)
        (7 + index) = halfword (ipHeader length pktid subproto src dest) index := by
    rw [List.append_assoc, halfword_append (by simp [addresses])]
    unfold halfword
    have bound : 2 * index + 1 < (ipHeader length pktid subproto src dest).length :=
      show 2 * index + 1 < 20 by omega
    simp [List.getD, List.getElem?_append_left bound,
      List.getElem?_append_left (Nat.lt_of_succ_lt bound)]
  have first : halfword (macs ++ [0x08, 0x00] ++ ipHeader length pktid subproto src dest ++ rest)
      7 = 0x4500#16 := by
    rw [show 7 = 7 + 0 from rfl, header 0 (by decide)]
    simp only [halfword, ipHeader, ipHeaderBytes, Nat.mul_zero, Nat.zero_add, List.getD_cons_zero,
      List.getD_cons_succ]
    decide
  have words : ihl (macs ++ [0x08, 0x00] ++ ipHeader length pktid subproto src dest ++ rest) =
      5 := by
    rw [ihl, first]
    rfl
  rintro ⟨-, -, unversioned | ⟨-, unsummed⟩⟩
  · exact unversioned ⟨by rw [first]; rfl, Nat.le_of_eq words.symm⟩
  · apply unsummed
    have halfwords : headerHalfwords (macs ++ [0x08, 0x00] ++
        ipHeader length pktid subproto src dest ++ rest) 10 =
        pairs (fun offset => (ipHeader length pktid subproto src dest).getD offset 0) 10 := by
      apply List.map_congr_left
      intro index member
      rw [header index (List.mem_range.mp member), halfword, append_toNat]
    rw [Summed, words, halfwords, onesSum_eq_top_iff (by decide)]
    · exact ipHeader_sum length pktid subproto src dest
    · intro word member
      obtain ⟨index, -, rfl⟩ := List.mem_map.mp member
      exact Nat.le_of_lt_succ (be16_lt _ _)

/-- `rxeipchk` and the header checksum: a frame that reaches three bytes beyond
its header is refused exactly when it should be, and one with a header of
`ip_set` never is. -/
theorem rxeipchk_agrees {chk : RxeIpChk} (resting : chk.Resting) {clocks : List Input}
    (during : ∀ input ∈ clocks, input.During) :
    (14 + 4 * ihl (carried clocks) + 3 ≤ (carried clocks).length →
      (chk.raised clocks = true ↔ Rejects (carried clocks))) ∧
    (∀ (macs rest : List Byte) (pktid subproto src dest : BitVec 32) (pkt : NetPacket),
      macs.length = 12 →
      carried clocks = macs ++ [0x08, 0x00] ++ ((List.range ipHeadersize).map fun offset : Nat =>
        (ipSet pktid subproto src dest pkt).get offset) ++ rest →
      chk.raised clocks = false) := by
  have raised := (resting.heard (carried clocks)).raised_iff during (Nat.zero_le _) rfl
  constructor
  · intro long
    rw [raised, rejects_iff, ErrorBy]
    have nibble : ihl (carried clocks) < 16 := (headerWords _).isLt
    have past : 2 * ihl (carried clocks) + 7 < processed (carried clocks).length := by
      unfold processed
      omega
    have some : 7 < processed (carried clocks).length := by omega
    simp only [past, some, true_and]
  · intro macs rest pktid subproto src dest pkt addresses frame
    have header : ((List.range ipHeadersize).map fun offset : Nat =>
        (ipSet pktid subproto src dest pkt).get offset) =
        ipHeader pkt.pLength pktid subproto src dest := by
      apply List.ext_getElem
      · rfl
      · intro offset left right
        rw [List.getElem_map, List.getElem_range]
        exact ipSet_header pktid subproto src dest pkt offset right
    rw [header] at frame
    rw [← Bool.not_eq_true, raised, frame]
    exact ipHeader_passes addresses pkt.pLength pktid subproto src dest rest _

/-- A frame of two MAC addresses, EtherType 0x0800, a twenty-byte header without
its checksum and a tail. -/
def unsummedFrame (tail : List Byte) : List Byte :=
  List.replicate 12 0 ++ [0x08, 0x00, 0x45, 0x00, 0x00, 0x14] ++ List.replicate 16 0 ++ tail

/-- A frame at one byte a clock. -/
def everyClock (frame : List Byte) : List Input := frame.map fun byte =>
  { iReset := false, iCe := true, iEn := true, iV := true, iD := byte }

/-- The circuit after a reset. -/
def afterReset : RxeIpChk := ⟨false, 0, 0, 0, false, 0, 0, false⟩

theorem everyClock_during (frame : List Byte) : ∀ input ∈ everyClock frame, input.During := by
  intro input member
  obtain ⟨byte, -, rfl⟩ := List.mem_map.mp member
  exact ⟨rfl, rfl, fun _ => rfl⟩

theorem afterReset_resting : afterReset.Resting := ⟨rfl, rfl, rfl, rfl, rfl⟩

theorem three_bytes_beyond_refused :
    afterReset.raised (everyClock (unsummedFrame [0, 0, 0])) = true :=
  ((rxeipchk_agrees afterReset_resting (everyClock_during (unsummedFrame [0, 0, 0]))).1
    (by decide)).mpr (by unfold Rejects; decide)

/-- Two bytes beyond the header are one too few: the sum is wrong and the frame
ends before it is looked at. -/
theorem two_bytes_beyond_pass : ¬ ∀ (chk : RxeIpChk) (clocks : List Input), chk.Resting →
    (∀ input ∈ clocks, input.During) →
    14 + 4 * ihl (carried clocks) + 2 ≤ (carried clocks).length →
    (chk.raised clocks = true ↔ Rejects (carried clocks)) := by
  intro always
  have refused := (always afterReset (everyClock (unsummedFrame [0, 0])) afterReset_resting
    (everyClock_during _) (by decide)).mpr (by unfold Rejects; decide)
  exact absurd refused (by decide)

end ZipVersa.Enet
