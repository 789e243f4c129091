import ZipVersa.Lib.OnesComplement
import ZipVersa.Net.Stack

/-! `ipcksum` against the internet checksum: the ones-complement of the
ones-complement sum of the halfwords of a buffer, an odd last byte padded with
zero. The code adds in 32 bits and brings the carries around once at the end,
and with the last byte of a buffer of odd length it takes in the one behind it. -/

set_option autoImplicit false

namespace ZipVersa.Net

open Lib

/-! ### What `ipcksum` computes -/

theorem foldCarries_folds (checksum : BitVec 32) :
    Folds 65535 checksum.toNat (foldCarries checksum).toNat ∧
      (foldCarries checksum).toNat < 65536 := by
  induction checksum using foldCarries.induct with
  | case1 checksum small =>
      rw [foldCarries, if_pos small]
      exact ⟨.refl 65535 checksum.toNat, small⟩
  | case2 checksum large ih =>
      rw [foldCarries, if_neg large]
      refine ⟨Folds.trans ?_ ih.1, ih.2⟩
      have bound := checksum.isLt
      have low : (checksum &&& 0xffff#32).toNat = checksum.toNat % 65536 := by
        rw [BitVec.toNat_and]
        exact Nat.and_two_pow_sub_one_eq_mod checksum.toNat 16
      have around := Folds.around 65535 (checksum.toNat % 65536) (checksum.toNat / 65536)
      rw [Nat.mod_add_div] at around
      change Folds 65535 checksum.toNat ((checksum &&& 0xffff#32) + (checksum >>> 16)).toNat
      rw [BitVec.toNat_add, low, BitVec.toNat_ushiftRight, Nat.shiftRight_eq_div_pow,
        Nat.mod_eq_of_lt (by omega)]
      exact around

/-- The halfwords `ipcksum` adds up. -/
def pairs (get : Nat → Byte) (count : Nat) : List Nat :=
  (List.range count).map fun pair => (be16 (get (2 * pair)) (get (2 * pair + 1))).toNat

theorem pairs_sum_le (get : Nat → Byte) (count : Nat) :
    (pairs get count).sum ≤ 65535 * count := by
  induction count with
  | zero => exact Nat.le_refl 0
  | succ count ih =>
      have bound := be16_lt (get (2 * count)) (get (2 * count + 1))
      simp only [pairs, List.range_succ, List.map_append, List.sum_append, List.map_cons,
        List.map_nil, List.sum_singleton] at ih ⊢
      omega

theorem pairs_concat (get : Nat → Byte) (count : Nat) :
    pairs get (count + 1) = pairs get count ++ [(be16 (get (2 * count)) (get (2 * count + 1))).toNat] := by
  simp only [pairs, List.range_succ, List.map_append, List.map_cons, List.map_nil]

theorem pairs_cons (get : Nat → Byte) (count : Nat) :
    pairs get (count + 1) =
      (be16 (get 0) (get 1)).toNat :: pairs (fun index => get (index + 2)) count := by
  simp only [pairs, List.range_succ_eq_map, List.map_cons, List.map_map]
  rfl

theorem pairs_congr {get other : Nat → Byte} {count : Nat}
    (same : ∀ index < 2 * count, get index = other index) : pairs get count = pairs other count := by
  apply List.map_congr_left
  intro pair member
  have inside := List.mem_range.mp member
  rw [same (2 * pair) (by omega), same (2 * pair + 1) (by omega)]

/-- The accumulator drops its carries. -/
theorem ipcksum_accumulates (get : Nat → Byte) (count : Nat) :
    ((List.range count).foldl (fun checksum pair =>
      checksum + be16 (get (2 * pair)) (get (2 * pair + 1))) 0#32).toNat =
      (pairs get count).sum % 2 ^ 32 := by
  induction count with
  | zero => rfl
  | succ count ih =>
      rw [pairs_concat, List.sum_append, List.sum_singleton, List.range_succ, List.foldl_append,
        List.foldl_cons, List.foldl_nil, BitVec.toNat_add, ih, Nat.mod_add_mod]

/-- Complementing a halfword held in a register. -/
theorem xor_ffff_toNat (word : BitVec 32) (small : word.toNat < 65536) :
    (word ^^^ 0xffff#32).toNat = 65535 - word.toNat := by
  have short : word ^^^ 0xffff#32 = (~~~ (word.setWidth 16)).setWidth 32 := by
    apply BitVec.eq_of_getLsbD_eq
    intro position inside
    have ones : (0xffff#32).getLsbD position = decide (position < 16) := by
      rw [BitVec.getLsbD_ofNat, show 0xffff = 2 ^ 16 - 1 from rfl, Nat.testBit_two_pow_sub_one]
      simp
      omega
    have high : ¬ position < 16 → word.getLsbD position = false := fun above => by
      rw [BitVec.getLsbD]
      exact Nat.testBit_lt_two_pow (Nat.lt_of_lt_of_le small
        (Nat.pow_le_pow_right (show 0 < 2 by decide) (show 16 ≤ position by omega)))
    rw [BitVec.getLsbD_xor, ones, BitVec.getLsbD_setWidth, BitVec.getLsbD_not,
      BitVec.getLsbD_setWidth]
    by_cases low : position < 16
    · simp [low, inside]
    · simp [low, high low]
  rw [short, BitVec.toNat_setWidth, BitVec.toNat_not, BitVec.toNat_setWidth]
  omega

/-- All that is said of `ipcksum` below. -/
theorem ipcksum_folds (len : Nat) (get : Nat → Byte) :
    ∃ folded, Folds 65535 ((pairs get ((len + 1) / 2)).sum % 2 ^ 32) folded ∧ folded < 65536 ∧
      (ipcksum len get).toNat = 65535 - folded := by
  obtain ⟨folds, small⟩ := foldCarries_folds ((List.range ((len + 1) / 2)).foldl
    (fun checksum pair => checksum + be16 (get (2 * pair)) (get (2 * pair + 1))) 0#32)
  rw [ipcksum_accumulates] at folds
  exact ⟨_, folds, small, xor_ffff_toNat _ small⟩

/-- The sum of a header and the checksum of that header is a nonzero multiple of
all ones. -/
theorem ipcksum_completes (get : Nat → Byte) :
    (ipcksum ipHeadersize get).toNat < 65536 ∧
      65535 ∣ (pairs get 10).sum + (ipcksum ipHeadersize get).toNat ∧
      (pairs get 10).sum + (ipcksum ipHeadersize get).toNat ≠ 0 := by
  obtain ⟨folded, folds, small, complement⟩ := ipcksum_folds ipHeadersize get
  have bound := pairs_sum_le get 10
  change Folds 65535 ((pairs get 10).sum % 2 ^ 32) folded at folds
  rw [Nat.mod_eq_of_lt (by omega)] at folds
  have residue := folds.residue
  have zero := folds.zero
  rw [complement]
  generalize (pairs get 10).sum = total at *
  omega

/-- Nothing past a buffer of even length is looked at. -/
theorem ipcksum_even {get other : Nat → Byte} {len : Nat} (even : len % 2 = 0)
    (same : ∀ index < len, get index = other index) : ipcksum len get = ipcksum len other := by
  have sums : (List.range ((len + 1) / 2)).foldl
      (fun checksum pair => checksum + be16 (get (2 * pair)) (get (2 * pair + 1))) 0 =
      (List.range ((len + 1) / 2)).foldl
        (fun checksum pair => checksum + be16 (other (2 * pair)) (other (2 * pair + 1))) 0 := by
    apply List.foldl_ext
    intro checksum pair member
    have inside := List.mem_range.mp member
    rw [same (2 * pair) (by omega), same (2 * pair + 1) (by omega)]
  rw [ipcksum, ipcksum, sums]

theorem ipcksum_congr {get other : Nat → Byte}
    (same : ∀ offset < ipHeadersize, get offset = other offset) :
    ipcksum ipHeadersize get = ipcksum ipHeadersize other :=
  ipcksum_even rfl same

/-! ### The internet checksum -/

/-- The big-endian halfwords of a buffer, an odd last byte padded with zero. -/
def halfwords (bytes : List Byte) : List Nat :=
  pairs (fun index => bytes.getD index 0) ((bytes.length + 1) / 2)

def internetChecksum (bytes : List Byte) : Nat := 65535 - onesSum 65535 (halfwords bytes)

/-- With its checksum in place a message adds up to all ones. -/
def Verifies (bytes : List Byte) : Prop := onesSum 65535 (halfwords bytes) = 65535

instance (bytes : List Byte) : Decidable (Verifies bytes) :=
  inferInstanceAs (Decidable (_ = _))

theorem halfwords_le (bytes : List Byte) : ∀ word ∈ halfwords bytes, word ≤ 65535 := by
  intro word member
  obtain ⟨pair, -, rfl⟩ := List.mem_map.mp member
  exact Nat.le_of_lt_succ (be16_lt _ _)

theorem halfwords_cons (high low : Byte) (rest : List Byte) :
    halfwords (high :: low :: rest) = (be16 high low).toNat :: halfwords rest := by
  have count : ((high :: low :: rest).length + 1) / 2 = (rest.length + 1) / 2 + 1 := by
    simp only [List.length_cons]
    omega
  rw [halfwords, count, pairs_cons]
  rfl

theorem onesSum_folds (bytes : List Byte) :
    Folds 65535 (halfwords bytes).sum (onesSum 65535 (halfwords bytes)) ∧
      onesSum 65535 (halfwords bytes) ≤ 65535 := by
  have folded := foldl_onesAdd (halfwords_le bytes) (.refl 65535 0) (Nat.zero_le _)
  rwa [Nat.zero_add] at folded

theorem verifies_iff (bytes : List Byte) :
    Verifies bytes ↔ 65535 ∣ (halfwords bytes).sum ∧ (halfwords bytes).sum ≠ 0 :=
  onesSum_eq_top_iff (by decide) (halfwords_le bytes)

/-- The bytes of a buffer in memory. -/
def buffer (len : Nat) (get : Nat → Byte) : List Byte := (List.range len).map get

/-- What the loop takes in from behind the buffer. -/
def behind (len : Nat) (get : Nat → Byte) : Nat := if len % 2 = 1 then (get len).toNat else 0

theorem behind_lt (len : Nat) (get : Nat → Byte) : behind len get < 256 := by
  unfold behind
  split
  · exact (get len).isLt
  · decide

theorem buffer_getD {len index : Nat} (get : Nat → Byte) :
    (buffer len get).getD index 0 = if index < len then get index else 0 := by
  by_cases inside : index < len
  · simp [buffer, List.getD, inside]
  · simp [buffer, List.getD, inside]

theorem pairs_sum_buffer (len : Nat) (get : Nat → Byte) :
    (pairs get ((len + 1) / 2)).sum = (halfwords (buffer len get)).sum + behind len get := by
  have padded : halfwords (buffer len get) =
      pairs (fun index => if index < len then get index else 0) ((len + 1) / 2) := by
    simp only [halfwords, buffer_getD]
    simp [buffer]
  rw [padded]
  rcases Nat.mod_two_eq_zero_or_one len with even | odd
  · have same : ∀ index < 2 * ((len + 1) / 2), get index = if index < len then get index else 0 := by
      intro index inside
      rw [if_pos (by omega)]
    rw [pairs_congr same, behind, if_neg (by omega)]
    rfl
  · obtain ⟨half, rfl⟩ : ∃ half, len = 2 * half + 1 := ⟨len / 2, by omega⟩
    have count : (2 * half + 1 + 1) / 2 = half + 1 := by omega
    have same : ∀ index < 2 * half, get index =
        if index < 2 * half + 1 then get index else 0 := by
      intro index inside
      rw [if_pos (by omega)]
    rw [count, pairs_concat, pairs_concat, ← pairs_congr same, List.sum_append, List.sum_append,
      List.sum_singleton, List.sum_singleton, be16_toNat, be16_toNat, behind, if_pos odd,
      if_pos (by omega : 2 * half < 2 * half + 1), if_neg (by omega : ¬ 2 * half + 1 < 2 * half + 1)]
    have none : (0 : Byte).toNat = 0 := rfl
    omega

/-- The byte behind makes up for the carries that the accumulator loses, and
these lose nothing else: a condition on the buffer and the byte behind it. -/
def MadeUp (len : Nat) (get : Nat → Byte) : Prop :=
  let total := (halfwords (buffer len get)).sum + behind len get
  total / 2 ^ 32 % 65535 = behind len get ∧
    (total % 2 ^ 32 = 0 ↔ (halfwords (buffer len get)).sum = 0)

theorem ipcksum_eq_iff (len : Nat) (get : Nat → Byte) :
    (ipcksum len get).toNat = internetChecksum (buffer len get) ↔ MadeUp len get := by
  obtain ⟨folded, folds, small, complement⟩ := ipcksum_folds len get
  obtain ⟨ones, fits⟩ := onesSum_folds (buffer len get)
  have few := behind_lt len get
  rw [pairs_sum_buffer] at folds
  have same := folds.eq_iff ones (Nat.le_of_lt_succ small) fits
  rw [complement, internetChecksum, MadeUp]
  generalize onesSum 65535 _ = sum at *
  generalize (halfwords _).sum = total at *
  generalize behind len get = byte at *
  have equal : 65535 - folded = 65535 - sum ↔ folded = sum := by omega
  rw [equal, same]
  omega

theorem halfwords_sum_le (bytes : List Byte) :
    (halfwords bytes).sum ≤ 65535 * ((bytes.length + 1) / 2) :=
  pairs_sum_le _ _

/-- A buffer of up to 128 kB loses no carry. -/
theorem madeUp_of_short {len : Nat} (get : Nat → Byte) (short : len ≤ 131072) :
    MadeUp len get ↔ behind len get = 0 := by
  have bound := halfwords_sum_le (buffer len get)
  have few := behind_lt len get
  have size : (buffer len get).length = len := by simp [buffer]
  rw [size] at bound
  unfold MadeUp
  generalize (halfwords _).sum = total at *
  generalize behind len get = byte at *
  have room : total + byte < 2 ^ 32 := by omega
  simp only [Nat.div_eq_of_lt room, Nat.mod_eq_of_lt room]
  omega

theorem buffer_update (len : Nat) (get : Nat → Byte) (byte : Byte) :
    buffer len (Function.update get len byte) = buffer len get := by
  apply List.map_congr_left
  intro index member
  exact Function.update_of_ne (Nat.ne_of_lt (List.mem_range.mp member)) _ _

/-- With an odd length there is a byte that, put behind the buffer, changes the
result. -/
theorem ipcksum_odd {len : Nat} (odd : len % 2 = 1) (get : Nat → Byte) :
    ∃ byte, ipcksum len (Function.update get len byte) ≠ ipcksum len get := by
  by_contra none
  push Not at none
  obtain ⟨first, folds, small, complement⟩ := ipcksum_folds len (Function.update get len 0)
  obtain ⟨second, others, fits, another⟩ := ipcksum_folds len (Function.update get len 1)
  rw [pairs_sum_buffer, buffer_update, behind, if_pos odd, Function.update_self] at folds others
  have same := (none 0).trans (none 1).symm
  have zero : (0 : Byte).toNat = 0 := rfl
  have one : (1 : Byte).toNat = 1 := rfl
  rw [zero] at folds
  rw [one] at others
  have residues := (folds.eq_iff others (Nat.le_of_lt_succ small) (Nat.le_of_lt_succ fits)).mp
    (by rw [same, another] at complement; omega)
  omega

/-- The result depends on the buffer alone exactly when its length is even. -/
theorem ipcksum_alone_iff (len : Nat) (get : Nat → Byte) :
    (∀ other : Nat → Byte, (∀ index < len, other index = get index) →
      ipcksum len other = ipcksum len get) ↔ len % 2 = 0 := by
  constructor
  · intro alone
    rcases Nat.mod_two_eq_zero_or_one len with even | odd
    · exact even
    · obtain ⟨byte, differs⟩ := ipcksum_odd odd get
      exact absurd (alone (Function.update get len byte) fun index inside =>
        Function.update_of_ne (Nat.ne_of_lt inside) byte get) differs
  · intro even other same
    exact ipcksum_even even same

/-- A message whose first bytes are zero adds up with the checksum put into its
second halfword, unless a byte behind has been taken in. -/
theorem checksum_verifies_iff {len : Nat} {get : Nat → Byte} {rest : List Byte}
    (zeroed : buffer len get = 0 :: 0 :: 0 :: 0 :: rest) (short : len ≤ 131072) :
    Verifies (0 :: 0 :: octet (ipcksum len get) 1 :: octet (ipcksum len get) 0 :: rest) ↔
      behind len get = 0 := by
  obtain ⟨folded, folds, small, complement⟩ := ipcksum_folds len get
  have few := behind_lt len get
  have bound := halfwords_sum_le (buffer len get)
  have size : (buffer len get).length = len := by simp [buffer]
  have field := be16_octets_of_lt (ipcksum len get) (by omega)
  have none : (be16 0 0).toNat = 0 := by decide
  rw [size] at bound
  rw [pairs_sum_buffer] at folds
  rw [zeroed, halfwords_cons, halfwords_cons, none, List.sum_cons, List.sum_cons] at folds bound
  rw [verifies_iff, halfwords_cons, halfwords_cons, none, field, List.sum_cons, List.sum_cons,
    complement]
  generalize (halfwords rest).sum = total at *
  generalize behind len get = byte at *
  rw [Nat.mod_eq_of_lt (by omega)] at folds
  have residue := folds.residue
  have zero := folds.zero
  omega

end ZipVersa.Net
