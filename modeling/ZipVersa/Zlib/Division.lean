import ZipVersa.Lib.Restoring
import ZipVersa.Zlib.Udiv

/-! The divisions of `zlib` give the quotient and the remainder. -/

set_option autoImplicit false

namespace ZipVersa.Zlib

open Lib

/-! ### Leading zeros -/

theorem bitrev_rounds (a : BitVec 32) (count : Nat) :
    (bitrevRound^[count] (0, a)).2 = a >>> count ∧
      ∀ position < 32, (bitrevRound^[count] (0, a)).1.getLsbD position =
        (decide (position < count) && a.getLsbD (count - 1 - position)) := by
  induction count with
  | zero => exact ⟨(BitVec.ushiftRight_zero a).symm, fun position _ => by simp⟩
  | succ count ih =>
      obtain ⟨rest, bits⟩ := ih
      rw [Function.iterate_succ_apply', bitrevRound]
      refine ⟨by rw [rest, BitVec.shiftRight_add], fun position inside => ?_⟩
      rw [BitVec.getLsbD_or, BitVec.getLsbD_shiftLeft, BitVec.getLsbD_and, rest,
        BitVec.getLsbD_ushiftRight]
      cases position with
      | zero => simp
      | succ position =>
          have before := bits position (by omega)
          have place : count + 1 - 1 - (position + 1) = count - 1 - position := by omega
          rw [place]
          simp only [before, inside, Nat.add_sub_cancel]
          simp

theorem zipBitrev_getLsbD (a : BitVec 32) {position : Nat} (inside : position < 32) :
    (zipBitrev a).getLsbD position = a.getLsbD (31 - position) := by
  rw [zipBitrev, (bitrev_rounds a 32).2 position inside]
  simp [inside]

/-- The word has its lowest one among the next `bound` bits, and those counted
are zero. -/
structure Narrowed (word : BitVec 32) (bound : Nat) (counted : Nat × BitVec 32) (start : Nat) :
    Prop where
  started : start ≤ counted.1
  shifted : counted.2 = word >>> (counted.1 - start)
  clear : ∀ position < counted.1 - start, word.getLsbD position = false
  found : ∃ position < bound, counted.2.getLsbD position = true

variable {word : BitVec 32} {width start : Nat} {counted : Nat × BitVec 32}

theorem masked_iff {mask : BitVec 32}
    (low : ∀ position < 32, mask.getLsbD position = decide (position < width))
    (within : width ≤ 32) : word &&& mask = 0 ↔ ∀ position < width, word.getLsbD position = false := by
  constructor
  · intro zero position below
    have bit := congrArg (fun word => word.getLsbD position) zero
    simpa [low position (by omega), below] using bit
  · intro clear
    apply BitVec.eq_of_getLsbD_eq
    intro position inside
    rw [BitVec.getLsbD_and, low position inside]
    by_cases below : position < width
    · simp [clear position below]
    · simp [below]

theorem Narrowed.skip (narrowed : Narrowed word (width + width) counted start) (mask : BitVec 32)
    (low : ∀ position < 32, mask.getLsbD position = decide (position < width))
    (within : width ≤ 32) : Narrowed word width (skipZeros width mask counted) start := by
  obtain ⟨started, shifted, clear, position, below, one⟩ := narrowed
  rw [skipZeros]
  split_ifs with zero
  · have zeros := (masked_iff low within).mp zero
    have further : counted.1 + width - start = counted.1 - start + width := by omega
    refine ⟨by dsimp only; omega, ?_, ?_, position - width, ?_, ?_⟩
    · dsimp only
      rw [shifted, further, BitVec.shiftRight_add]
    · intro other inside
      dsimp only at inside
      by_cases before : other < counted.1 - start
      · exact clear other before
      · have next := zeros (other - (counted.1 - start)) (by omega)
        rw [shifted, BitVec.getLsbD_ushiftRight] at next
        rwa [Nat.add_sub_cancel' (Nat.le_of_not_lt before)] at next
    · have above : width ≤ position := Nat.le_of_not_lt fun early => by
        rw [zeros position early] at one
        cases one
      omega
    · have above : width ≤ position := Nat.le_of_not_lt fun early => by
        rw [zeros position early] at one
        cases one
      rwa [BitVec.getLsbD_ushiftRight, Nat.add_sub_cancel' above]
  · refine ⟨started, shifted, clear, ?_⟩
    by_contra none
    refine zero ((masked_iff low within).mpr fun other inside => ?_)
    exact Bool.eq_false_iff.mpr fun set => none ⟨other, inside, set⟩

theorem skipZeros_counted (width : Nat) (mask : BitVec 32) (counted : Nat × BitVec 32) :
    (skipZeros width mask counted).1 =
      if counted.2 &&& mask = 0 then counted.1 + width else counted.1 := by
  rw [skipZeros]
  split_ifs <;> rfl

/-- The tests count the zeros below the lowest one. -/
theorem countZeros_eq (nonzero : word ≠ 0) (start : Nat) : ∃ zeros,
    countZeros (start, word) = start + zeros ∧ word.getLsbD zeros = true ∧
      ∀ position < zeros, word.getLsbD position = false := by
  have begun : Narrowed word (16 + 16) (start, word) start := by
    refine ⟨Nat.le_refl _, ?_, ?_, ?_⟩
    · rw [Nat.sub_self, BitVec.ushiftRight_zero]
    · intro position inside
      rw [Nat.sub_self] at inside
      omega
    · by_contra none
      refine nonzero (BitVec.eq_of_getLsbD_eq fun position inside => ?_)
      refine Eq.trans ?_ BitVec.getLsbD_zero.symm
      exact Bool.eq_false_iff.mpr fun set => none ⟨position, inside, set⟩
  have eight : Narrowed word (8 + 8) _ start := begun.skip 0xffff (by decide) (by decide)
  have four : Narrowed word (4 + 4) _ start := eight.skip 0xff (by decide) (by decide)
  have two : Narrowed word (2 + 2) _ start := four.skip 0x0f (by decide) (by decide)
  have last : Narrowed word (1 + 1) _ start := two.skip 0x03 (by decide) (by decide)
  have ended : Narrowed word 1 _ start := last.skip 0x01 (by decide) (by decide)
  obtain ⟨started, shifted, clear, position, below, one⟩ := ended
  have first : position = 0 := by omega
  rw [first, shifted, BitVec.getLsbD_ushiftRight, Nat.add_zero] at one
  refine ⟨_, ?_, one, clear⟩
  rw [Nat.add_sub_cancel' started, skipZeros_counted]
  rfl

/-- The lowest one of the reversed word is the highest one of the word. -/
theorem reversed_bounds {zeros : Nat} (one : (zipBitrev word).getLsbD zeros = true)
    (clear : ∀ position < zeros, (zipBitrev word).getLsbD position = false) :
    zeros < 32 ∧ 2 ^ (31 - zeros) ≤ word.toNat ∧ word.toNat < 2 ^ (32 - zeros) := by
  have inside : zeros < 32 := BitVec.lt_of_getLsbD one
  refine ⟨inside, ?_, ?_⟩
  · rw [zipBitrev_getLsbD word inside] at one
    exact Nat.ge_two_pow_of_testBit one
  · refine Nat.lt_pow_two_of_testBit _ fun position above => ?_
    by_cases high : position < 32
    · have bit := clear (31 - position) (by omega)
      rw [zipBitrev_getLsbD word (by omega), Nat.sub_sub_self (by omega)] at bit
      exact bit
    · exact BitVec.getLsbD_of_ge word position (by omega)

theorem zipBitrev_nonzero (nonzero : word ≠ 0) : zipBitrev word ≠ 0 := by
  intro zero
  refine nonzero (BitVec.eq_of_getLsbD_eq fun position inside => ?_)
  have bit := zipBitrev_getLsbD word (show 31 - position < 32 by omega)
  rw [zero, Nat.sub_sub_self (by omega)] at bit
  exact bit.symm.trans (BitVec.getLsbD_zero.trans BitVec.getLsbD_zero.symm)

/-- What `cltz` counts in a word of 32 bits. -/
theorem word_zeros (nonzero : word ≠ 0) (start : Nat) : ∃ zeros < 32,
    countZeros (start, zipBitrev word) = start + zeros ∧
      2 ^ (31 - zeros) ≤ word.toNat ∧ word.toNat < 2 ^ (32 - zeros) := by
  obtain ⟨zeros, total, one, clear⟩ := countZeros_eq (zipBitrev_nonzero nonzero) start
  obtain ⟨inside, least, most⟩ := reversed_bounds one clear
  exact ⟨zeros, inside, total, least, most⟩

theorem high_toNat (v : ULong) : ((v >>> 32).setWidth 32).toNat = v.toNat / 2 ^ 32 := by
  have bound := v.isLt
  rw [BitVec.toNat_setWidth, BitVec.toNat_ushiftRight, Nat.shiftRight_eq_div_pow]
  omega

theorem low_toNat (v : ULong) : ((v &&& 0xffffffff).setWidth 32).toNat = v.toNat % 2 ^ 32 := by
  have mask : (0xffffffff : ULong).toNat = 2 ^ 32 - 1 := rfl
  rw [BitVec.toNat_setWidth, BitVec.toNat_and, mask, Nat.and_two_pow_sub_one_eq_mod, Nat.mod_mod]

/-- The number of zeros above the highest one. -/
theorem cltz_bounds {v : ULong} (nonzero : v ≠ 0) : cltz v < 64 ∧
    2 ^ (63 - cltz v) ≤ v.toNat ∧ v.toNat < 2 ^ (64 - cltz v) := by
  have high := high_toNat v
  have low := low_toNat v
  rw [cltz]
  split_ifs with empty
  · -- the upper word is zero, so the lower one is all of it
    have none : v.toNat / 2 ^ 32 = 0 := by rw [← high, empty]; rfl
    have all : ((v &&& 0xffffffff).setWidth 32).toNat = v.toNat := by omega
    have some : (v &&& 0xffffffff).setWidth 32 ≠ 0 := by
      intro zero
      rw [zero] at all
      exact nonzero (BitVec.eq_of_toNat_eq all.symm)
    obtain ⟨zeros, inside, total, least, most⟩ := word_zeros some 32
    have top : 63 - (32 + zeros) = 31 - zeros := by omega
    have next : 64 - (32 + zeros) = 32 - zeros := by omega
    rw [total, top, next, ← all]
    exact ⟨by omega, least, most⟩
  · obtain ⟨zeros, inside, total, least, most⟩ := word_zeros empty 0
    have top : 63 - zeros = 32 + (31 - zeros) := by omega
    have next : 64 - zeros = 32 + (32 - zeros) := by omega
    rw [high] at least most
    rw [total, Nat.zero_add, top, next, Nat.pow_add, Nat.pow_add]
    refine ⟨by omega, ?_, ?_⟩
    · exact (Nat.mul_le_mul_left _ least).trans (Nat.mul_div_le _ _)
    · rw [Nat.mul_comm]
      exact (Nat.div_lt_iff_lt_mul (by decide)).mp most

/-! ### The loop -/

theorem divisionLoop_toNat {dividend divisor count : Nat} {m r a b : ULong}
    (divides : Divides dividend divisor (count + 1) a.toNat r.toNat)
    (place : m.toNat = 2 ^ count) (shifted : b.toNat = divisor * 2 ^ count) :
    (divisionLoop m r a b).toNat = dividend / divisor := by
  have some : m ≠ 0 := by
    rintro rfl
    exact absurd place.symm (Nat.pow_pos (by decide)).ne'
  have bit : (r ||| m).toNat = r.toNat + 2 ^ count := by
    rw [BitVec.toNat_or, place, divides.or]
  rw [divisionLoop, if_neg some]
  induction count generalizing m r a b with
  | zero =>
      have gone : m >>> 1 = 0 := by
        refine BitVec.eq_of_toNat_eq ?_
        rw [BitVec.toNat_ushiftRight, place]
        rfl
      rw [Nat.pow_zero, Nat.mul_one] at shifted
      split_ifs with fits
      · have ended := divides.subtract (by rw [Nat.pow_zero, Nat.mul_one, ← shifted]; exact fits)
        rw [gone, divisionLoop, if_pos rfl, bit]
        exact ended.done.symm
      · have ended := divides.restore
          (by rw [Nat.pow_zero, Nat.mul_one, ← shifted]; exact Nat.lt_of_not_le fits)
        rw [gone, divisionLoop, if_pos rfl]
        exact ended.done.symm
  | succ count ih =>
      have half : (m >>> 1).toNat = 2 ^ count := by
        rw [BitVec.toNat_ushiftRight, place, Nat.shiftRight_eq_div_pow, Nat.pow_succ]
        omega
      have lower : (b >>> 1).toNat = divisor * 2 ^ count := by
        rw [BitVec.toNat_ushiftRight, shifted, Nat.shiftRight_eq_div_pow, Nat.pow_succ,
          ← Nat.mul_assoc]
        omega
      have more : m >>> 1 ≠ 0 := by
        intro zero
        rw [zero] at half
        exact absurd half.symm (Nat.pow_pos (by decide)).ne'
      split_ifs with fits
      · have taken := divides.subtract (shifted ▸ fits)
        rw [← shifted, ← bit, ← BitVec.toNat_sub_of_le fits] at taken
        rw [divisionLoop, if_neg more]
        exact ih taken half lower more (by rw [BitVec.toNat_or, half, taken.or])
      · have left := divides.restore (shifted ▸ Nat.lt_of_not_le fits)
        rw [divisionLoop, if_neg more]
        exact ih left half lower more (by rw [BitVec.toNat_or, half, left.or])

/-! ### The three paths -/

theorem shiftLeft_some {value : ULong} {count : Nat} (inside : count < 64)
    (fits : value.toNat * 2 ^ count < 2 ^ 64) :
    ∃ shifted, shiftLeft value count = some shifted ∧ shifted.toNat = value.toNat * 2 ^ count := by
  refine ⟨value <<< count, ?_, ?_⟩
  · rw [shiftLeft, if_pos (by omega), Int.toNat_natCast]
  · rw [BitVec.toNat_shiftLeft, Nat.shiftLeft_eq, Nat.mod_eq_of_lt fits]

theorem divide_some {ia ib : BitVec 32} (nonzero : ib ≠ 0) : divide ia ib = some (ia / ib) :=
  if_neg nonzero

/-- A number and one that is not above it have their highest ones in order. -/
theorem cltz_le {a b : ULong} (nonzero : b ≠ 0) (below : b ≤ a) : cltz a ≤ cltz b := by
  have some : a ≠ 0 := by
    rintro rfl
    exact nonzero (BitVec.eq_of_toNat_eq (Nat.le_zero.mp below))
  obtain ⟨inside, -, most⟩ := cltz_bounds some
  obtain ⟨-, least, -⟩ := cltz_bounds nonzero
  have powers : 2 ^ (63 - cltz b) < 2 ^ (64 - cltz a) := least.trans_lt (lt_of_le_of_lt below most)
  have places := (Nat.pow_lt_pow_iff_right (by decide)).mp powers
  omega

theorem shift_fits {v : ULong} {count : Nat} (inside : count ≤ 64)
    (below : v.toNat < 2 ^ (64 - count)) : v.toNat * 2 ^ count < 2 ^ 64 := by
  have room : 2 ^ 64 = 2 ^ (64 - count) * 2 ^ count := by
    rw [← Nat.pow_add, Nat.sub_add_cancel inside]
  rw [room]
  exact Nat.mul_lt_mul_of_pos_right below (Nat.pow_pos (by decide))

theorem narrow_toNat {v : ULong} (short : v >>> 32 = 0) : (v.setWidth 32).toNat = v.toNat := by
  have high : v.toNat / 2 ^ 32 = 0 := by
    rw [← Nat.shiftRight_eq_div_pow, ← BitVec.toNat_ushiftRight, short]
    rfl
  rw [BitVec.toNat_setWidth]
  omega

/-- Division in 32 bits. -/
theorem divide_words {a b : ULong} {ia ib : BitVec 32} (nonzero : ib ≠ 0)
    (same : ia.toNat / ib.toNat = a.toNat / b.toNat) :
    (divide ia ib).bind (fun ir => some (ir.setWidth 64)) = some (a / b) := by
  rw [divide_some nonzero, Option.bind_some]
  congr 1
  refine BitVec.eq_of_toNat_eq ?_
  have bound := (ia / ib).isLt
  rw [BitVec.toNat_setWidth, Nat.mod_eq_of_lt (by omega), BitVec.toNat_udiv, BitVec.toNat_udiv,
    same]

/-- Both operands shifted until the low half of the divisor is zero. -/
theorem common_quotient {a b : ULong} {count : Nat} (aligned : b.toNat * 2 ^ count % 2 ^ 32 = 0) :
    a.toNat * 2 ^ count / 2 ^ 32 / (b.toNat * 2 ^ count / 2 ^ 32) = a.toNat / b.toNat := by
  rw [Nat.div_div_eq_div_mul, Nat.mul_div_cancel' (Nat.dvd_of_mod_eq_zero aligned),
    Nat.mul_div_mul_right _ _ (Nat.pow_pos (by decide))]

/-- The common shift is taken only where it empties the low half of the divisor. -/
theorem commonShift_some {b shifted : ULong} {la : Nat} (lb : Nat)
    (shift : shiftLeft b la = some shifted) : ∃ common, commonShift b la lb = some common ∧
      (common = true → shifted.toNat % 2 ^ 32 = 0) := by
  rw [commonShift, shift]
  split_ifs
  · refine ⟨_, rfl, fun empty => ?_⟩
    rw [← low_toNat, beq_iff_eq.mp empty]
    rfl
  · exact ⟨false, rfl, fun never => nomatch never⟩

/-- The divisor with its highest one on top, and one bit of the quotient after the other. -/
theorem loop_quotient {a b a' b' m : ULong} {la lb : Nat} (order : la ≤ lb) (within : lb < 64)
    (top : 2 ^ (63 - lb) ≤ b.toNat) (aShifted : a'.toNat = a.toNat * 2 ^ la)
    (bShifted : b'.toNat = b.toNat * 2 ^ lb) (place : m.toNat = 2 ^ (lb - la)) :
    (divisionLoop m 0 a' b').toNat = a.toNat / b.toNat := by
  have split : 2 ^ lb = 2 ^ la * 2 ^ (lb - la) := by rw [← Nat.pow_add, Nat.add_sub_cancel' order]
  have high : 2 ^ 64 ≤ b.toNat * 2 ^ la * 2 ^ (lb - la + 1) := by
    have word : 2 ^ 64 = 2 ^ (63 - lb) * 2 ^ (lb + 1) := by
      rw [← Nat.pow_add]
      congr 1
      omega
    have places : 2 ^ (lb + 1) = 2 ^ la * 2 ^ (lb - la + 1) := by
      rw [← Nat.pow_add]
      congr 1
      omega
    rw [word, places, Nat.mul_assoc]
    exact Nat.mul_le_mul_right _ top
  have start := Divides.start (lt_of_lt_of_le a'.isLt high)
  rw [divisionLoop_toNat start place (by rw [bShifted, split, Nat.mul_assoc]), aShifted,
    Nat.mul_div_mul_right _ _ (Nat.pow_pos (by decide))]

/-- Every shift is by fewer than 64 places, and the quotient is right on each path. -/
theorem udivdi3_eq {a b : ULong} (nonzero : b ≠ 0) : udivdi3 a b = some (a / b) := by
  have positive : 0 < b.toNat := Nat.pos_of_ne_zero fun zero => nonzero (BitVec.eq_of_toNat_eq zero)
  rw [udivdi3]
  split_ifs with less short
  · congr 1
    refine BitVec.eq_of_toNat_eq ?_
    rw [BitVec.toNat_udiv, Nat.div_eq_of_lt less]
    rfl
  · have narrow := narrow_toNat short.1
    refine divide_words (fun zero => ?_) (by rw [narrow, narrow_toNat short.2])
    rw [zero] at narrow
    exact positive.ne narrow
  · have below : b.toNat ≤ a.toNat := Nat.le_of_not_lt less
    have dividend : a ≠ 0 := by
      rintro rfl
      exact absurd (lt_of_lt_of_le positive below) (by decide)
    have order := cltz_le nonzero below
    obtain ⟨la, -, aMost⟩ := cltz_bounds dividend
    obtain ⟨lb, bLeast, bMost⟩ := cltz_bounds nonzero
    obtain ⟨a', aShift, aShifted⟩ := shiftLeft_some la (shift_fits la.le aMost)
    obtain ⟨common, bShift, bCommon⟩ :=
      shiftLeft_some la (shift_fits la.le (lt_of_le_of_lt below aMost))
    obtain ⟨b', bTop, bShifted⟩ := shiftLeft_some lb (shift_fits lb.le bMost)
    obtain ⟨taken, found, aligned⟩ := commonShift_some (cltz b) bShift
    have difference : ((cltz b : Int) - cltz a) = (cltz b - cltz a : Nat) := by omega
    obtain ⟨m, mShift, place⟩ : ∃ m, shiftLeft 1 (cltz b - cltz a) = some m ∧
        m.toNat = 2 ^ (cltz b - cltz a) := by
      have inside : cltz b - cltz a < 64 := by omega
      have one : (1 : ULong).toNat = 1 := rfl
      obtain ⟨m, shift, value⟩ := @shiftLeft_some 1 _ inside
        (by rw [one, Nat.one_mul]; exact Nat.pow_lt_pow_right (by decide) inside)
      exact ⟨m, difference ▸ shift, by rw [value, one, Nat.one_mul]⟩
    simp only [aShift, found, bShift, bTop, mShift, Option.bind_eq_bind, Option.bind_some]
    cases taken with
    | true =>
        have empty := aligned rfl
        rw [bCommon] at empty
        refine divide_words (fun zero => ?_) ?_
        · have none : common.toNat / 2 ^ 32 = 0 := by rw [← high_toNat, zero]; rfl
          have some : 0 < b.toNat * 2 ^ cltz a := Nat.mul_pos positive (Nat.pow_pos (by decide))
          rw [← bCommon] at some empty
          omega
        · rw [high_toNat, high_toNat, aShifted, bCommon, common_quotient empty]
    | false =>
        refine congrArg some (BitVec.eq_of_toNat_eq ?_)
        rw [loop_quotient order lb bLeast aShifted bShifted place, BitVec.toNat_udiv]

/-! ### Remainder and sign -/

theorem umoddi3_toNat {a b : ULong} (nonzero : b ≠ 0) :
    ∃ r, umoddi3 a b = some r ∧ r.toNat = a.toNat % b.toNat := by
  refine ⟨a - a / b * b, ?_, ?_⟩
  · rw [umoddi3, udivdi3_eq nonzero]
    rfl
  · have product : a.toNat / b.toNat * b.toNat ≤ a.toNat := Nat.div_mul_le_self _ _
    have exact' : (a / b * b).toNat = a.toNat / b.toNat * b.toNat := by
      rw [BitVec.toNat_mul, BitVec.toNat_udiv, Nat.mod_eq_of_lt (lt_of_le_of_lt product a.isLt)]
    rw [BitVec.toNat_sub_of_le (BitVec.le_def.mpr (exact'.symm ▸ product)), exact',
      Nat.mod_eq_sub_mul_div, Nat.mul_comm]

theorem divdi3_eq {a b : BitVec 64} (nonzero : b ≠ 0) : divdi3 a b = some (a.sdiv b) := by
  have negated : -b ≠ 0 := fun zero => nonzero (BitVec.neg_eq_zero_iff.mp zero)
  have aSign : a.slt 0 = a.msb := BitVec.slt_zero_eq_msb
  have bSign : b.slt 0 = b.msb := BitVec.slt_zero_eq_msb
  rw [divdi3, aSign, bSign, BitVec.sdiv_eq]
  cases a.msb with
  | false =>
      cases b.msb with
      | false => simp [udivdi3_eq nonzero]
      | true => simp [udivdi3_eq negated]
  | true =>
      cases b.msb with
      | false => simp [udivdi3_eq nonzero]
      | true => simp [udivdi3_eq negated]

/-- No shift is by 64 places or more and nothing is divided by zero, for there is a
result; it is the quotient, the remainder, or the quotient towards zero. -/
theorem divisions_correct (a b : BitVec 64) (nonzero : b ≠ 0) :
    ∃ q r, udivdi3 a b = some q ∧ umoddi3 a b = some r ∧
      a.toNat = q.toNat * b.toNat + r.toNat ∧ r.toNat < b.toNat ∧
      divdi3 a b = some (BitVec.ofInt 64 (a.toInt.tdiv b.toInt)) := by
  obtain ⟨r, found, value⟩ := @umoddi3_toNat a b nonzero
  have positive : 0 < b.toNat := Nat.pos_of_ne_zero fun zero => nonzero (BitVec.eq_of_toNat_eq zero)
  refine ⟨a / b, r, udivdi3_eq nonzero, found, ?_, ?_, ?_⟩
  · rw [value, BitVec.toNat_udiv, Nat.mul_comm, Nat.div_add_mod]
  · rw [value]
    exact Nat.mod_lt _ positive
  · rw [divdi3_eq nonzero]
    refine congrArg some (BitVec.eq_of_toInt_eq ?_)
    rw [BitVec.toInt_sdiv, BitVec.toInt_ofInt]

/-- The smallest number by minus one wraps. -/
theorem smallest_by_minus_one :
    ∃ q r, udivdi3 0x8000000000000000 0xffffffffffffffff = some q ∧
      umoddi3 0x8000000000000000 0xffffffffffffffff = some r ∧
      (0x8000000000000000 : BitVec 64).toNat =
        q.toNat * (0xffffffffffffffff : BitVec 64).toNat + r.toNat ∧
      r.toNat < (0xffffffffffffffff : BitVec 64).toNat ∧
      divdi3 0x8000000000000000 0xffffffffffffffff =
        some (BitVec.ofInt 64 ((0x8000000000000000 : BitVec 64).toInt.tdiv
          (0xffffffffffffffff : BitVec 64).toInt)) :=
  divisions_correct 0x8000000000000000 0xffffffffffffffff (by decide)

end ZipVersa.Zlib
