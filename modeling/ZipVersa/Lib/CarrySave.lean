import Mathlib.Algebra.Ring.Nat
import Mathlib.Tactic.Common
import Mathlib.Tactic.Ring

/-! Three numbers added without a carry through: chains of `chain` bits add by
themselves, and what each carries is kept for the next chain in a number of its
own. A product is accumulated so, one bit of a factor after the other. -/

set_option autoImplicit false

namespace ZipVersa.Lib

/-- The sum without the carries between the chains, and those carries. A chain
gives one bit to the next. -/
def carrySave (chain : Nat) : (chains sum carries addend : Nat) → Nat × Nat
  | 0, _, _, _ => (0, 0)
  | chains + 1, sum, carries, addend =>
      let total := sum % 2 ^ chain + carries % 2 ^ chain + addend % 2 ^ chain
      let rest := carrySave chain chains (sum / 2 ^ chain) (carries / 2 ^ chain) (addend / 2 ^ chain)
      (total % 2 ^ chain + 2 ^ chain * rest.1, 2 ^ chain * (total / 2 ^ chain % 2 + rest.2))

/-- No chain has more than its lowest bit. -/
def Sparse (chain : Nat) : (chains carries : Nat) → Prop
  | 0, _ => True
  | chains + 1, carries => carries % 2 ^ chain ≤ 1 ∧ Sparse chain chains (carries / 2 ^ chain)

section CarrySave

variable {chain chains sum carries addend : Nat}

theorem sparse_zero (chain chains : Nat) : Sparse chain chains 0 := by
  induction chains with
  | zero => trivial
  | succ chains ih =>
      rw [Sparse, Nat.zero_mod, Nat.zero_div]
      exact ⟨Nat.zero_le 1, ih⟩

theorem sparse_mod (sparse : Sparse chain chains carries) :
    Sparse chain chains (carries % 2 ^ (chain * chains)) := by
  induction chains generalizing carries with
  | zero => trivial
  | succ chains ih =>
      obtain ⟨low, high⟩ := sparse
      have split : 2 ^ (chain * (chains + 1)) = 2 ^ chain * 2 ^ (chain * chains) := by
        rw [Nat.mul_succ, Nat.add_comm, Nat.pow_add]
      rw [Sparse, split, Nat.mod_mul_right_mod, Nat.mod_mul_right_div_self]
      exact ⟨low, ih high⟩

/-- The carries start at the bottom of the chains. -/
theorem sparse_carries (wide : 0 < chain) :
    Sparse chain chains (carrySave chain chains sum carries addend).2 := by
  have positive := Nat.two_pow_pos chain
  cases chains with
  | zero => trivial
  | succ chains =>
      rw [carrySave, Sparse, Nat.mul_mod_right, Nat.mul_div_cancel_left _ positive]
      refine ⟨Nat.zero_le 1, ?_⟩
      induction chains generalizing sum carries addend with
      | zero => trivial
      | succ chains ih =>
          have bit := Nat.mod_lt ((sum % 2 ^ chain + carries % 2 ^ chain + addend % 2 ^ chain) /
            2 ^ chain) Nat.two_pos
          have two : 2 ≤ 2 ^ chain := by
            calc 2 = 2 ^ 1 := rfl
              _ ≤ 2 ^ chain := Nat.pow_le_pow_right Nat.two_pos wide
          rw [Sparse, carrySave, Nat.add_mul_mod_self_left, Nat.add_mul_div_left _ _ positive,
            Nat.mod_eq_of_lt (Nat.lt_of_lt_of_le bit two),
            Nat.div_eq_of_lt (Nat.lt_of_lt_of_le bit two), Nat.zero_add]
          exact ⟨Nat.le_of_lt_succ bit, ih⟩

/-- Together they are the sum of the three. -/
theorem carrySave_sum (sparse : Sparse chain chains carries)
    (low : sum < 2 ^ (chain * chains)) (low' : carries < 2 ^ (chain * chains))
    (low'' : addend < 2 ^ (chain * chains)) :
    (carrySave chain chains sum carries addend).1 + (carrySave chain chains sum carries addend).2 =
      sum + carries + addend := by
  induction chains generalizing sum carries addend with
  | zero =>
      rw [Nat.mul_zero, Nat.pow_zero] at low low' low''
      rw [carrySave]
      omega
  | succ chains ih =>
      obtain ⟨one, high⟩ := sparse
      have split : 2 ^ (chain * (chains + 1)) = 2 ^ chain * 2 ^ (chain * chains) := by
        rw [Nat.mul_succ, Nat.add_comm, Nat.pow_add]
      rw [split] at low low' low''
      have rest := ih high (Nat.div_lt_of_lt_mul low) (Nat.div_lt_of_lt_mul low')
        (Nat.div_lt_of_lt_mul low'')
      have positive := Nat.two_pow_pos chain
      have below := Nat.mod_lt sum positive
      have below' := Nat.mod_lt addend positive
      have parts := Nat.div_add_mod sum (2 ^ chain)
      have parts' := Nat.div_add_mod carries (2 ^ chain)
      have parts'' := Nat.div_add_mod addend (2 ^ chain)
      rw [carrySave]
      generalize carrySave chain chains (sum / 2 ^ chain) (carries / 2 ^ chain)
        (addend / 2 ^ chain) = next at rest ⊢
      generalize total_eq : sum % 2 ^ chain + carries % 2 ^ chain + addend % 2 ^ chain = total
      have bit : total / 2 ^ chain < 2 :=
        Nat.div_lt_of_lt_mul (by rw [Nat.mul_two]; omega)
      have whole := Nat.div_add_mod total (2 ^ chain)
      dsimp only
      rw [Nat.mod_eq_of_lt bit]
      calc total % 2 ^ chain + 2 ^ chain * next.1 + 2 ^ chain * (total / 2 ^ chain + next.2)
          = 2 ^ chain * (total / 2 ^ chain) + total % 2 ^ chain + 2 ^ chain * (next.1 + next.2) := by
            ring
        _ = total + 2 ^ chain * (sum / 2 ^ chain + carries / 2 ^ chain + addend / 2 ^ chain) := by
            rw [whole, rest]
        _ = (2 ^ chain * (sum / 2 ^ chain) + sum % 2 ^ chain) +
              (2 ^ chain * (carries / 2 ^ chain) + carries % 2 ^ chain) +
              (2 ^ chain * (addend / 2 ^ chain) + addend % 2 ^ chain) := by
            rw [← total_eq]
            ring
        _ = sum + carries + addend := by rw [parts, parts', parts'']

/-- Where nothing is added there is nothing to carry: the lowest place a carry can
come to moves up by one. -/
theorem carries_rise {place : Nat} (clear : 2 ^ place ∣ carries)
    (clear' : 2 ^ place ∣ addend) :
    2 ^ (place + 1) ∣ (carrySave chain chains sum carries addend).2 := by
  induction chains generalizing sum carries addend place with
  | zero => exact Nat.dvd_zero _
  | succ chains ih =>
      rw [carrySave]
      rcases Nat.lt_or_ge place chain with here | past
      · exact Nat.dvd_trans (Nat.pow_dvd_pow 2 here) (Nat.dvd_mul_right _ _)
      · obtain ⟨more, rfl⟩ := Nat.exists_eq_add_of_le past
        obtain ⟨high, rfl⟩ := clear
        obtain ⟨high', rfl⟩ := clear'
        have positive := Nat.two_pow_pos chain
        have below := Nat.mod_lt sum positive
        have split (count : Nat) : 2 ^ (chain + more) * count = 2 ^ chain * (2 ^ more * count) := by
          rw [Nat.pow_add, Nat.mul_assoc]
        have rest := @ih (sum / 2 ^ chain) (2 ^ more * high) (2 ^ more * high') more
          (Nat.dvd_mul_right _ _) (Nat.dvd_mul_right _ _)
        rw [split high, split high', Nat.mul_mod_right, Nat.mul_mod_right,
          Nat.mul_div_cancel_left _ positive, Nat.mul_div_cancel_left _ positive]
        simp only [Nat.add_zero]
        rw [Nat.div_eq_of_lt below, Nat.zero_mod, Nat.zero_add, Nat.add_assoc, Nat.pow_add]
        exact Nat.mul_dvd_mul_left _ rest

end CarrySave

/-- `count` places of the factor `left` are done: its other places are `rest`,
`shifted` is what the next of them counts, and `sum` and `carries` are what the
others have come to. -/
structure Multiplies (chain chains left right count rest shifted sum carries : Nat) : Prop where
  rest : rest = left / 2 ^ count
  shifted : shifted = right * 2 ^ count % 2 ^ (chain * chains)
  total : (sum + carries) % 2 ^ (chain * chains) = left % 2 ^ count * right % 2 ^ (chain * chains)
  clear : 2 ^ count ∣ carries
  sparse : Sparse chain chains carries
  sumBound : sum < 2 ^ (chain * chains)
  carriesBound : carries < 2 ^ (chain * chains)

section Multiplies

variable {chain chains left right count rest shifted sum carries : Nat}

theorem Multiplies.start (small : right < 2 ^ (chain * chains)) :
    Multiplies chain chains left right 0 left right 0 0 where
  rest := by rw [Nat.pow_zero, Nat.div_one]
  shifted := by rw [Nat.pow_zero, Nat.mul_one, Nat.mod_eq_of_lt small]
  total := by rw [Nat.pow_zero, Nat.mod_one, Nat.zero_mul]
  clear := Nat.dvd_zero _
  sparse := sparse_zero chain chains
  sumBound := Nat.two_pow_pos _
  carriesBound := Nat.two_pow_pos _

/-- One place of the factor more. -/
theorem mod_succ_place (left right count : Nat) :
    left % 2 ^ (count + 1) * right =
      left % 2 ^ count * right + left / 2 ^ count % 2 * (right * 2 ^ count) := by
  rw [Nat.pow_succ, Nat.mod_mul]
  ring

theorem Multiplies.next (wide : 0 < chain) (more : count < chain * chains)
    (multiplies : Multiplies chain chains left right count rest shifted sum carries) :
    Multiplies chain chains left right (count + 1) (rest / 2) (shifted * 2 % 2 ^ (chain * chains))
      ((carrySave chain chains sum carries (if rest % 2 = 1 then shifted else 0)).1 %
        2 ^ (chain * chains))
      ((carrySave chain chains sum carries (if rest % 2 = 1 then shifted else 0)).2 %
        2 ^ (chain * chains)) := by
  obtain ⟨rfl, rfl, total, clear, sparse, sumBound, carriesBound⟩ := multiplies
  have positive := Nat.two_pow_pos (chain * chains)
  generalize addend_eq : (if left / 2 ^ count % 2 = 1 then right * 2 ^ count % 2 ^ (chain * chains)
    else 0) = addend
  have place : addend = left / 2 ^ count % 2 * (right * 2 ^ count % 2 ^ (chain * chains)) := by
    rw [← addend_eq]
    rcases Nat.mod_two_eq_zero_or_one (left / 2 ^ count) with bit | bit
    · rw [bit, Nat.zero_mul, if_neg Nat.zero_ne_one]
    · rw [bit, Nat.one_mul, if_pos rfl]
  have addendBound : addend < 2 ^ (chain * chains) := by
    rw [← addend_eq]
    split
    · exact Nat.mod_lt _ positive
    · exact positive
  have divides : 2 ^ count ∣ 2 ^ (chain * chains) := Nat.pow_dvd_pow 2 (Nat.le_of_lt more)
  have clear' : 2 ^ count ∣ addend := by
    rw [place]
    exact Nat.dvd_mul_left_of_dvd
      ((Nat.dvd_mod_iff divides).mpr (Nat.dvd_mul_left _ _)) _
  have rise : 2 ^ (count + 1) ∣ (carrySave chain chains sum carries addend).2 :=
    carries_rise clear clear'
  have whole := carrySave_sum sparse sumBound carriesBound addendBound
  refine ⟨?_, ?_, ?_, ?_, ?_, ?_, ?_⟩
  · rw [Nat.pow_succ, Nat.div_div_eq_div_mul]
  · rw [Nat.pow_succ, ← Nat.mul_assoc, Nat.mod_mul_mod]
  · rw [← Nat.add_mod, whole, mod_succ_place, Nat.add_mod, total, place, ← Nat.add_mod,
      Nat.add_mod, Nat.mul_mod_mod, ← Nat.add_mod]
  · exact (Nat.dvd_mod_iff (Nat.pow_dvd_pow 2 more)).mpr rise
  · exact sparse_mod (sparse_carries wide)
  · exact Nat.mod_lt _ positive
  · exact Nat.mod_lt _ positive

/-- The places of the sum that are done are those of the product. -/
theorem Multiplies.low (within : count ≤ chain * chains)
    (multiplies : Multiplies chain chains left right count rest shifted sum carries) :
    sum % 2 ^ count = left * right % 2 ^ count := by
  have divides : 2 ^ count ∣ 2 ^ (chain * chains) := Nat.pow_dvd_pow 2 within
  obtain ⟨high, high_eq⟩ := multiplies.clear
  calc sum % 2 ^ count
      = (sum + carries) % 2 ^ count := by rw [high_eq, Nat.add_mul_mod_self_left]
    _ = (sum + carries) % 2 ^ (chain * chains) % 2 ^ count := (Nat.mod_mod_of_dvd _ divides).symm
    _ = left % 2 ^ count * right % 2 ^ count := by
        rw [multiplies.total, Nat.mod_mod_of_dvd _ divides]
    _ = left * right % 2 ^ count := Nat.mod_mul_mod _ _ _

end Multiplies

end ZipVersa.Lib
