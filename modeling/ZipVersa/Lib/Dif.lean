import Mathlib.Algebra.BigOperators.Ring.Finset
import Mathlib.Algebra.BigOperators.Intervals
import Mathlib.Tactic.Common
import Mathlib.Tactic.Ring

/-! Decimation in frequency on a stream: layers of butterflies from the widest
to the pairs of neighbours. With exact butterflies each block comes out as its
discrete Fourier transform, in bit-reversed order. -/

set_option autoImplicit false

namespace ZipVersa.Lib

variable {Value Other : Type}

/-- The butterflies of every block of `2 ^ (lg + 1)`, on the pairs half a block
apart; `bfly` is given the place in the half. -/
def layer (lg : Nat) (bfly : Nat → Value → Value → Value × Value) (stream : Nat → Value)
    (index : Nat) : Value :=
  if index % 2 ^ (lg + 1) < 2 ^ lg then
    (bfly (index % 2 ^ lg) (stream index) (stream (index + 2 ^ lg))).1
  else (bfly (index % 2 ^ lg) (stream (index - 2 ^ lg)) (stream index)).2

/-- The layers below `lg`, one after the other. -/
def dif : (lg : Nat) → (Nat → Nat → Value → Value → Value × Value) → (Nat → Value) → Nat → Value
  | 0, _, stream => stream
  | lg + 1, bfly, stream => dif lg bfly (layer lg (bfly lg) stream)

/-! ### Two networks side by side -/

theorem layer_relates {Before : Value → Other → Prop} {After : Value → Other → Prop} {lg : Nat}
    {bfly : Nat → Value → Value → Value × Value} {other : Nat → Other → Other → Other × Other}
    (keeps : ∀ place < 2 ^ lg, ∀ left right left' right', Before left left' →
      Before right right' → After (bfly place left right).1 (other place left' right').1 ∧
        After (bfly place left right).2 (other place left' right').2)
    {stream : Nat → Value} {image : Nat → Other}
    (related : ∀ index, Before (stream index) (image index)) (index : Nat) :
    After (layer lg bfly stream index) (layer lg other image index) := by
  have place : index % 2 ^ lg < 2 ^ lg := Nat.mod_lt _ (Nat.two_pow_pos lg)
  rw [layer, layer]
  split_ifs
  · exact (keeps _ place _ _ _ _ (related _) (related _)).1
  · exact (keeps _ place _ _ _ _ (related _) (related _)).2

/-- A relation the butterflies of each layer keep is kept by the whole. -/
theorem dif_relates {related : Nat → Value → Other → Prop}
    {bfly : Nat → Nat → Value → Value → Value × Value}
    {other : Nat → Nat → Other → Other → Other × Other} {lg : Nat}
    (keeps : ∀ level < lg, ∀ place < 2 ^ level, ∀ left right left' right',
      related (level + 1) left left' → related (level + 1) right right' →
        related level (bfly level place left right).1 (other level place left' right').1 ∧
          related level (bfly level place left right).2 (other level place left' right').2)
    {stream : Nat → Value} {image : Nat → Other}
    (start : ∀ index, related lg (stream index) (image index)) (index : Nat) :
    related 0 (dif lg bfly stream index) (dif lg other image index) := by
  induction lg generalizing stream image with
  | zero => exact start index
  | succ lg ih =>
      refine ih (fun level below => keeps level (Nat.lt_succ_of_lt below)) fun index => ?_
      exact layer_relates (keeps lg (Nat.lt_succ_self lg)) start index

/-! ### The discrete Fourier transform -/

/-- `index` with its `lg` bits in reverse. -/
def bitReverse : (lg : Nat) → Nat → Nat
  | 0, _ => 0
  | lg + 1, index =>
      if index % 2 ^ (lg + 1) < 2 ^ lg then 2 * bitReverse lg index
      else 2 * bitReverse lg index + 1

theorem bitReverse_mod {lg size : Nat} (wide : lg ≤ size) (index : Nat) :
    bitReverse lg (index % 2 ^ size) = bitReverse lg index := by
  induction lg generalizing size with
  | zero => rfl
  | succ lg ih =>
      rw [bitReverse, bitReverse, Nat.mod_mod_of_dvd index (Nat.pow_dvd_pow 2 wide),
        ih (Nat.le_of_succ_le wide)]

/-- The reversal of registers. -/
theorem bitReverse_toNat {lg : Nat} (place : BitVec lg) :
    bitReverse lg place.toNat = place.reverse.toNat := by
  induction lg with
  | zero => rw [BitVec.eq_nil place.reverse, bitReverse, BitVec.toNat_zero_length]
  | succ lg ih =>
      have low := ih (place.setWidth lg)
      rw [BitVec.toNat_setWidth, bitReverse_mod (Nat.le_refl lg)] at low
      have top : (place.toNat % 2 ^ (lg + 1) < 2 ^ lg) ↔ place.msb = false := by
        rw [Nat.mod_eq_of_lt place.isLt, BitVec.msb_eq_false_iff_two_mul_lt, Nat.pow_succ]
        omega
      change _ = (BitVec.concat (place.setWidth lg).reverse place.msb).toNat
      rw [bitReverse, BitVec.toNat_concat, low]
      split_ifs with below
      · rw [top.mp below, Bool.toNat_false, Nat.mul_comm]
        rfl
      · rw [eq_true_of_ne_false (fun high => below (top.mpr high)), Bool.toNat_true, Nat.mul_comm]

section Dft

variable {Ring : Type} [CommRing Ring]

/-- `(a + b, (a - b) w)`, with `w` a power of the root of the blocks. -/
def exactBfly (root : Nat → Ring) (lg place : Nat) (left right : Ring) : Ring × Ring :=
  (left + right, (left - right) * root (lg + 1) ^ place)

/-- Each root is a square root of the one before; the first two are `1` and `-1`. -/
structure Roots (root : Nat → Ring) : Prop where
  unit : root 0 = 1
  half : root 1 = -1
  square : ∀ lg, root (lg + 1) ^ 2 = root lg

namespace Roots

variable {root : Nat → Ring}

theorem pow_half (roots : Roots root) (lg : Nat) : root (lg + 1) ^ 2 ^ lg = -1 := by
  induction lg with
  | zero => simpa using roots.half
  | succ lg ih => rw [Nat.pow_succ', pow_mul, roots.square, ih]

theorem pow_even (roots : Roots root) (lg count : Nat) :
    root (lg + 1) ^ (2 * count) = root lg ^ count := by
  rw [pow_mul, roots.square]

theorem pow_whole (roots : Roots root) (lg : Nat) : root lg ^ 2 ^ lg = 1 := by
  induction lg with
  | zero => simpa using roots.unit
  | succ lg ih => rw [Nat.pow_succ', pow_mul, roots.square, ih]

end Roots

/-- A place in the block of an index. -/
theorem block_mod (index place size : Nat) :
    (index - index % size + place) % size = place % size := by
  have start : index - index % size = size * (index / size) := by
    have parts := Nat.div_add_mod index size
    omega
  rw [start, Nat.mul_add_mod]

theorem mod_low {lg index : Nat} (low : index % 2 ^ (lg + 1) < 2 ^ lg) :
    index % 2 ^ lg = index % 2 ^ (lg + 1) := by
  rw [← Nat.mod_mod_of_dvd index (Nat.pow_dvd_pow 2 (Nat.le_succ lg)), Nat.mod_eq_of_lt low]

theorem mod_high {lg index : Nat} (high : 2 ^ lg ≤ index % 2 ^ (lg + 1)) :
    index % 2 ^ lg + 2 ^ lg = index % 2 ^ (lg + 1) := by
  have below := Nat.mod_lt index (Nat.two_pow_pos (lg + 1))
  rw [Nat.pow_succ] at below
  rw [← Nat.mod_mod_of_dvd index (Nat.pow_dvd_pow 2 (Nat.le_succ lg)), Nat.mod_eq_sub_mod high,
    Nat.mod_eq_of_lt (by omega)]
  omega

theorem layer_first {lg : Nat} {bfly : Nat → Value → Value → Value × Value} {stream : Nat → Value}
    (index : Nat) {place : Nat} (inside : place < 2 ^ lg) :
    layer lg bfly stream (index - index % 2 ^ (lg + 1) + place) =
      (bfly place (stream (index - index % 2 ^ (lg + 1) + place))
        (stream (index - index % 2 ^ (lg + 1) + (place + 2 ^ lg)))).1 := by
  have half : 2 ^ lg < 2 ^ (lg + 1) := Nat.pow_lt_pow_right (by decide) (Nat.lt_succ_self lg)
  have here : (index - index % 2 ^ (lg + 1) + place) % 2 ^ (lg + 1) = place := by
    rw [block_mod, Nat.mod_eq_of_lt (Nat.lt_trans inside half)]
  have low : (index - index % 2 ^ (lg + 1) + place) % 2 ^ lg = place := by
    rw [@mod_low lg _ (by rwa [here]), here]
  rw [layer, low, here, if_pos inside, Nat.add_assoc]

theorem layer_second {lg : Nat} {bfly : Nat → Value → Value → Value × Value}
    {stream : Nat → Value} (index : Nat) {place : Nat} (inside : place < 2 ^ lg) :
    layer lg bfly stream (index - index % 2 ^ (lg + 1) + (place + 2 ^ lg)) =
      (bfly place (stream (index - index % 2 ^ (lg + 1) + place))
        (stream (index - index % 2 ^ (lg + 1) + (place + 2 ^ lg)))).2 := by
  have double : 2 ^ (lg + 1) = 2 ^ lg + 2 ^ lg := by rw [Nat.pow_succ, Nat.mul_two]
  have here : (index - index % 2 ^ (lg + 1) + (place + 2 ^ lg)) % 2 ^ (lg + 1) = place + 2 ^ lg := by
    rw [block_mod, Nat.mod_eq_of_lt (by omega)]
  have low : (index - index % 2 ^ (lg + 1) + (place + 2 ^ lg)) % 2 ^ lg = place := by
    have parts := @mod_high lg (index - index % 2 ^ (lg + 1) + (place + 2 ^ lg)) (by omega)
    omega
  rw [layer, low, here, if_neg (by omega), ← Nat.add_assoc, Nat.add_sub_cancel]

end Dft

/-- A layer sees no more than the block. -/
theorem layer_block {lg : Nat} {bfly : Nat → Value → Value → Value × Value}
    {stream other : Nat → Value} {index : Nat}
    (same : ∀ place < 2 ^ (lg + 1), stream (index - index % 2 ^ (lg + 1) + place) =
      other (index - index % 2 ^ (lg + 1) + place)) {place : Nat} (inside : place < 2 ^ (lg + 1)) :
    layer lg bfly stream (index - index % 2 ^ (lg + 1) + place) =
      layer lg bfly other (index - index % 2 ^ (lg + 1) + place) := by
  have double : 2 ^ (lg + 1) = 2 ^ lg + 2 ^ lg := by rw [Nat.pow_succ, Nat.mul_two]
  rcases Nat.lt_or_ge place (2 ^ lg) with low | high
  · rw [layer_first index low, layer_first index low, same place inside, same _ (by omega)]
  · obtain ⟨rest, rfl⟩ := Nat.exists_eq_add_of_le' high
    rw [layer_second index (by omega), layer_second index (by omega), same _ inside,
      same rest (by omega)]

/-- So does the whole network. -/
theorem dif_block {lg : Nat} {bfly : Nat → Nat → Value → Value → Value × Value}
    {stream other : Nat → Value} {index : Nat}
    (same : ∀ place < 2 ^ lg, stream (index - index % 2 ^ lg + place) =
      other (index - index % 2 ^ lg + place)) :
    dif lg bfly stream index = dif lg bfly other index := by
  induction lg generalizing stream other with
  | zero => simpa [dif, Nat.mod_one] using same 0 Nat.one_pos
  | succ lg ih =>
      refine ih fun place inside => ?_
      have double : 2 ^ (lg + 1) = 2 ^ lg + 2 ^ lg := by rw [Nat.pow_succ, Nat.mul_two]
      have small : index % 2 ^ (lg + 1) ≤ index := Nat.mod_le _ _
      have below := Nat.mod_lt index (Nat.two_pow_pos (lg + 1))
      obtain ⟨here, moved, within⟩ : ∃ here, index - index % 2 ^ lg + place =
          index - index % 2 ^ (lg + 1) + here ∧ here < 2 ^ (lg + 1) := by
        rcases Nat.lt_or_ge (index % 2 ^ (lg + 1)) (2 ^ lg) with low | high
        · exact ⟨place, by rw [mod_low low], by omega⟩
        · have parts := mod_high high
          exact ⟨place + 2 ^ lg, by omega, by omega⟩
      rw [moved]
      exact layer_block same within

section Dft

variable {Ring : Type} [CommRing Ring]

/-- Every block of `2 ^ lg` comes out transformed, in bit-reversed order. -/
theorem dif_exact {root : Nat → Ring} (roots : Roots root) (lg : Nat) (stream : Nat → Ring)
    (index : Nat) :
    dif lg (exactBfly root) stream index =
      ∑ item ∈ Finset.range (2 ^ lg),
        stream (index - index % 2 ^ lg + item) * root lg ^ (item * bitReverse lg index) := by
  induction lg generalizing stream with
  | zero => simp [dif, bitReverse, Nat.mod_one]
  | succ lg ih =>
      have double : 2 ^ (lg + 1) = 2 ^ lg + 2 ^ lg := by rw [Nat.pow_succ, Nat.mul_two]
      have below := Nat.mod_lt index (Nat.two_pow_pos (lg + 1))
      have small : index % 2 ^ (lg + 1) ≤ index := Nat.mod_le _ _
      rw [dif, ih, double, Finset.sum_range_add, ← Finset.sum_add_distrib, ← double]
      refine Finset.sum_congr rfl fun item inside => ?_
      rw [Finset.mem_range] at inside
      rw [bitReverse]
      split_ifs with low
      · have near : item * (2 * bitReverse lg index) = 2 * (item * bitReverse lg index) := by ring
        have far : (2 ^ lg + item) * (2 * bitReverse lg index) =
            2 * (item * bitReverse lg index + 2 ^ lg * bitReverse lg index) := by ring
        have whole : root lg ^ (item * bitReverse lg index + 2 ^ lg * bitReverse lg index) =
            root lg ^ (item * bitReverse lg index) := by
          rw [pow_add, pow_mul _ (2 ^ lg), roots.pow_whole, one_pow, mul_one]
        rw [mod_low low, layer_first index inside, exactBfly, near, far, roots.pow_even,
          roots.pow_even, whole, Nat.add_comm (2 ^ lg) item]
        exact add_mul _ _ _
      · have high := mod_high (Nat.le_of_not_lt low)
        have start : index - index % 2 ^ lg + item =
            index - index % 2 ^ (lg + 1) + (item + 2 ^ lg) := by omega
        have near : item * (2 * bitReverse lg index + 1) =
            2 * (item * bitReverse lg index) + item := by ring
        have far : (2 ^ lg + item) * (2 * bitReverse lg index + 1) =
            2 * (item * bitReverse lg index) + item + (2 ^ lg + 2 ^ lg * (2 * bitReverse lg index)) := by
          ring
        have turn : root (lg + 1) ^ (2 ^ lg + 2 ^ lg * (2 * bitReverse lg index)) = -1 := by
          rw [pow_add, pow_mul _ (2 ^ lg), roots.pow_half, pow_mul, neg_one_sq, one_pow, mul_one]
        have even : root (lg + 1) ^ (2 * (item * bitReverse lg index) + item) =
            root lg ^ (item * bitReverse lg index) * root (lg + 1) ^ item := by
          rw [pow_add, roots.pow_even]
        rw [start, layer_second index inside, exactBfly, near, far, pow_add _ (_ + item), turn,
          even, Nat.add_comm (2 ^ lg) item]
        ring

end Dft

end ZipVersa.Lib
