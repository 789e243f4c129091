import Mathlib.Data.List.Basic
import Mathlib.Algebra.BigOperators.Group.List.Basic
import Mathlib.Algebra.Ring.Nat

/-! Records in which a run of equal samples is one sample and a count. -/

set_option autoImplicit false

namespace ZipVersa.Lib

/-- One word of a record: a sample, or `count + 1` further ones like the last. -/
inductive Token (α : Type) where
  | sample (value : α)
  | again (count : Nat)

namespace Token

variable {α : Type}

def length : Token α → Nat
  | sample _ => 1
  | again count => count + 1

/-- The sample a word ends on. -/
def latest (last : α) : Token α → α
  | sample value => value
  | again _ => last

def expand (last : α) : List (Token α) → List α
  | [] => []
  | sample value :: rest => value :: expand value rest
  | again count :: rest => List.replicate (count + 1) last ++ expand last rest

/-- The place of a word in the expanded record. -/
def position (tokens : List (Token α)) (i : Nat) : Nat := ((tokens.take i).map length).sum

@[simp] theorem position_nil (i : Nat) : position ([] : List (Token α)) i = 0 := by
  rw [position, List.take_nil, List.map_nil, List.sum_nil]

@[simp] theorem position_zero (tokens : List (Token α)) : position tokens 0 = 0 := rfl

@[simp] theorem position_succ (token : Token α) (tokens : List (Token α)) (i : Nat) :
    position (token :: tokens) (i + 1) = token.length + position tokens i := by
  rw [position, List.take_succ_cons, List.map_cons, List.sum_cons, position]

theorem expand_length (last : α) (tokens : List (Token α)) :
    (expand last tokens).length = (tokens.map length).sum := by
  induction tokens generalizing last with
  | nil => rfl
  | cons token tokens ih =>
      cases token with
      | sample value => rw [expand, List.length_cons, ih, List.map_cons, List.sum_cons, length,
          Nat.add_comm]
      | again count => rw [expand, List.length_append, List.length_replicate, ih, List.map_cons,
          List.sum_cons, length]

theorem expand_append (last : α) (before after : List (Token α)) :
    expand last (before ++ after) = expand last before ++ expand (before.foldl latest last) after := by
  induction before generalizing last with
  | nil => rfl
  | cons token before ih =>
      cases token with
      | sample value => rw [List.cons_append, expand, ih, expand, List.foldl_cons, latest,
          List.cons_append]
      | again count => rw [List.cons_append, expand, ih, expand, List.foldl_cons, latest,
          List.append_assoc]

/-- A sample stands at its word's place. -/
theorem expand_position {last value : α} {tokens : List (Token α)} {i : Nat}
    (found : tokens[i]? = some (sample value)) :
    (expand last tokens)[position tokens i]? = some value := by
  induction tokens generalizing last i with
  | nil => cases found
  | cons token tokens ih =>
      cases i with
      | zero =>
          obtain rfl : token = sample value := Option.some.inj found
          rfl
      | succ i =>
          rw [position_succ]
          cases token with
          | sample first =>
              rw [expand, length, Nat.add_comm, List.getElem?_cons_succ]
              exact ih found
          | again count =>
              rw [expand, length, List.getElem?_append_right (by rw [List.length_replicate]; omega),
                List.length_replicate, Nat.add_sub_cancel_left]
              exact ih found

/-- A longer count in the place of the last one. -/
theorem expand_longer (last : α) (tokens : List (Token α)) (count : Nat) :
    expand last (tokens ++ [again (count + 1)]) =
      expand last (tokens ++ [again count]) ++ [tokens.foldl latest last] := by
  rw [expand_append, expand_append, List.append_assoc]
  simp only [expand, List.append_nil]
  rw [List.replicate_succ']

theorem expand_infix (last : α) (before between after : List (Token α)) :
    expand (before.foldl latest last) between <:+: expand last (before ++ between ++ after) := by
  rw [expand_append, expand_append]
  exact List.infix_append _ _ _

end Token

end ZipVersa.Lib
