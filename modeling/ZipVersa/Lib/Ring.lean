import Mathlib.Algebra.Ring.Nat
import Mathlib.Tactic.Common

/-! A memory of `2 ^ lg` places used in a ring, with pointers one bit wider than
its addresses. `stored` is what stands between a read pointer and a write
pointer `count` places on. -/

set_option autoImplicit false

namespace ZipVersa.Lib

variable {α : Type} {lg : Nat}

def stored (mem : BitVec lg → α) (rd : BitVec (lg + 1)) (count : Nat) : List α :=
  (List.range count).map fun i => mem ((rd + BitVec.ofNat (lg + 1) i).setWidth lg)

@[simp] theorem stored_zero (mem : BitVec lg → α) (rd : BitVec (lg + 1)) : stored mem rd 0 = [] :=
  rfl

@[simp] theorem stored_length (mem : BitVec lg → α) (rd : BitVec (lg + 1)) (count : Nat) :
    (stored mem rd count).length = count := by
  simp [stored]

theorem pointer_succ (rd : BitVec (lg + 1)) (count : Nat) :
    rd + 1 + BitVec.ofNat (lg + 1) count = rd + BitVec.ofNat (lg + 1) (count + 1) := by
  rw [BitVec.add_assoc, BitVec.ofNat_add, BitVec.add_comm 1]
  rfl

theorem pointer_push (rd : BitVec (lg + 1)) (count : Nat) :
    rd + BitVec.ofNat (lg + 1) count + 1 = rd + BitVec.ofNat (lg + 1) (count + 1) := by
  rw [BitVec.ofNat_add, ← BitVec.add_assoc]
  rfl

theorem pointer_toNat (rd : BitVec (lg + 1)) {count : Nat} (inside : count ≤ 2 ^ lg) :
    (rd + BitVec.ofNat (lg + 1) count).toNat =
      if rd.toNat + count < 2 * 2 ^ lg then rd.toNat + count
      else rd.toNat + count - 2 * 2 ^ lg := by
  have bound : 2 ^ (lg + 1) = 2 * 2 ^ lg := by rw [Nat.pow_succ, Nat.mul_comm]
  have := rd.isLt
  have positive : 0 < 2 ^ lg := Nat.two_pow_pos lg
  rw [BitVec.toNat_add, BitVec.toNat_ofNat, bound, Nat.mod_eq_of_lt (by omega : count < 2 * 2 ^ lg)]
  split
  · next small => exact Nat.mod_eq_of_lt small
  · next large =>
      rw [Nat.mod_eq_sub_mod (by omega), Nat.mod_eq_of_lt (by omega)]

theorem place_toNat (pointer : BitVec (lg + 1)) :
    (pointer.setWidth lg).toNat =
      if pointer.toNat < 2 ^ lg then pointer.toNat else pointer.toNat - 2 ^ lg := by
  have bound : 2 ^ (lg + 1) = 2 * 2 ^ lg := by rw [Nat.pow_succ, Nat.mul_comm]
  have := pointer.isLt
  rw [BitVec.toNat_setWidth]
  split
  · next small => exact Nat.mod_eq_of_lt small
  · next large => rw [Nat.mod_eq_sub_mod (by omega), Nat.mod_eq_of_lt (by omega)]

theorem place_ne (rd : BitVec (lg + 1)) {first second : Nat} (before : first < second)
    (inside : second < 2 ^ lg) :
    (rd + BitVec.ofNat (lg + 1) first).setWidth lg ≠
      (rd + BitVec.ofNat (lg + 1) second).setWidth lg := by
  intro same
  have values := congrArg BitVec.toNat same
  rw [place_toNat, place_toNat, pointer_toNat rd (by omega), pointer_toNat rd (by omega)] at values
  have := rd.isLt
  have bound : 2 ^ (lg + 1) = 2 * 2 ^ lg := by rw [Nat.pow_succ, Nat.mul_comm]
  split_ifs at values <;> omega

theorem pointer_inj {rd : BitVec (lg + 1)} {first second : Nat} (inside : first ≤ 2 ^ lg)
    (insideToo : second ≤ 2 ^ lg) :
    rd + BitVec.ofNat (lg + 1) first = rd + BitVec.ofNat (lg + 1) second ↔ first = second := by
  constructor
  · intro same
    have values := congrArg BitVec.toNat same
    rw [pointer_toNat rd inside, pointer_toNat rd insideToo] at values
    have := rd.isLt
    have bound : 2 ^ (lg + 1) = 2 * 2 ^ lg := by rw [Nat.pow_succ, Nat.mul_comm]
    split_ifs at values <;> omega
  · rintro rfl
    rfl

/-- Pointers to the same place but not the same pointer: the ring is full. -/
theorem full_iff {rd : BitVec (lg + 1)} {count : Nat} (inside : count ≤ 2 ^ lg) :
    ((rd + BitVec.ofNat (lg + 1) count).setWidth lg = rd.setWidth lg ∧
      (rd + BitVec.ofNat (lg + 1) count).msb ≠ rd.msb) ↔ count = 2 ^ lg := by
  have := rd.isLt
  have bound : 2 ^ (lg + 1) = 2 * 2 ^ lg := by rw [Nat.pow_succ, Nat.mul_comm]
  rw [← BitVec.toNat_inj, place_toNat, place_toNat, BitVec.msb_eq_decide, BitVec.msb_eq_decide,
    pointer_toNat rd inside, Nat.add_sub_cancel, ne_eq, decide_eq_decide]
  split_ifs <;> omega

/-! ### Taking out and putting in -/

theorem stored_pop (mem : BitVec lg → α) (rd : BitVec (lg + 1)) (count : Nat) :
    stored mem rd (count + 1) = mem (rd.setWidth lg) :: stored mem (rd + 1) count := by
  rw [stored, List.range_succ_eq_map, List.map_cons, List.map_map]
  congr 1
  · rw [BitVec.add_zero]
  · refine List.map_congr_left fun i _ => ?_
    rw [Function.comp_apply, pointer_succ]

theorem stored_push (mem : BitVec lg → α) (rd : BitVec (lg + 1)) {count : Nat}
    (room : count < 2 ^ lg) (value : α) :
    stored (Function.update mem ((rd + BitVec.ofNat (lg + 1) count).setWidth lg) value) rd
      (count + 1) = stored mem rd count ++ [value] := by
  rw [stored, List.range_succ, List.map_append, List.map_singleton, Function.update_self]
  congr 1
  refine List.map_congr_left fun i member => ?_
  rw [Function.update_of_ne (place_ne rd (List.mem_range.mp member) room)]

/-! ### Pointers no wider than the addresses

A ring that is never filled to the last place needs no wider pointers. -/

def window (mem : BitVec lg → α) (start : BitVec lg) (count : Nat) : List α :=
  (List.range count).map fun i => mem (start + BitVec.ofNat lg i)

@[simp] theorem window_zero (mem : BitVec lg → α) (start : BitVec lg) : window mem start 0 = [] :=
  rfl

@[simp] theorem window_length (mem : BitVec lg → α) (start : BitVec lg) (count : Nat) :
    (window mem start count).length = count := by
  simp [window]

theorem offset_inj {start : BitVec lg} {first second : Nat} (inside : first < 2 ^ lg)
    (insideToo : second < 2 ^ lg) :
    start + BitVec.ofNat lg first = start + BitVec.ofNat lg second ↔ first = second := by
  rw [BitVec.add_right_inj, ← BitVec.toNat_inj, BitVec.toNat_ofNat, BitVec.toNat_ofNat,
    Nat.mod_eq_of_lt inside, Nat.mod_eq_of_lt insideToo]

theorem offset_eq_self {start : BitVec lg} {count : Nat} :
    start + BitVec.ofNat lg count = start ↔ count % 2 ^ lg = 0 := by
  rw [BitVec.add_right_eq_self, ← BitVec.toNat_inj, BitVec.toNat_ofNat]
  rfl

theorem offset_succ (start : BitVec lg) (count : Nat) :
    start + BitVec.ofNat lg count + 1 = start + BitVec.ofNat lg (count + 1) := by
  rw [BitVec.ofNat_add, ← BitVec.add_assoc]
  rfl

theorem succ_offset (start : BitVec lg) (count : Nat) :
    start + 1 + BitVec.ofNat lg count = start + BitVec.ofNat lg (count + 1) := by
  rw [← offset_succ, BitVec.add_assoc, BitVec.add_comm 1, ← BitVec.add_assoc]

theorem window_pop (mem : BitVec lg → α) (start : BitVec lg) (count : Nat) :
    window mem start (count + 1) = mem start :: window mem (start + 1) count := by
  rw [window, List.range_succ_eq_map, List.map_cons, List.map_map]
  congr 1
  · rw [BitVec.add_zero]
  · refine List.map_congr_left fun i _ => ?_
    rw [Function.comp_apply, succ_offset]

/-- A write behind the window. -/
theorem window_scratch (mem : BitVec lg → α) (start : BitVec lg) {count : Nat}
    (room : count < 2 ^ lg) (value : α) :
    window (Function.update mem (start + BitVec.ofNat lg count) value) start count =
      window mem start count := by
  refine List.map_congr_left fun i member => ?_
  have below := List.mem_range.mp member
  have apart : start + BitVec.ofNat lg i ≠ start + BitVec.ofNat lg count :=
    mt (offset_inj (by omega) room).mp (Nat.ne_of_lt below)
  rw [Function.update_of_ne apart]

theorem window_push (mem : BitVec lg → α) (start : BitVec lg) {count : Nat}
    (room : count < 2 ^ lg) (value : α) :
    window (Function.update mem (start + BitVec.ofNat lg count) value) start (count + 1) =
      window mem start count ++ [value] := by
  rw [← window_scratch mem start room value]
  rw [window, List.range_succ, List.map_append, List.map_singleton, Function.update_self]
  rfl

end ZipVersa.Lib
