import Mathlib.Logic.Function.Basic
import Mathlib.Tactic.Common

/-! A dynamic memory by its banks: a bank is closed or has one row open, and an
access is for the oldest request that still waits for one. -/

set_option autoImplicit false

namespace ZipVersa.Lib.Dram

structure Request (Bank Row Column : Type) where
  write : Bool
  bank : Bank
  row : Row
  column : Column
  deriving DecidableEq, Repr

inductive Command (Bank Row Column : Type) where
  | activate (bank : Bank) (row : Row)
  | precharge (bank : Bank)
  | prechargeAll
  | access (write : Bool) (bank : Bank) (column : Column)
  | refresh
  | other
  deriving DecidableEq, Repr

variable {Bank Row Column : Type}

def Request.command (request : Request Bank Row Column) : Command Bank Row Column :=
  .access request.write request.bank request.column

def Command.isAccess : Command Bank Row Column → Bool
  | .access .. => true
  | _ => false

/-- The access is one of this kind in this bank. -/
def Command.accesses [DecidableEq Bank] (write : Bool) (bank : Bank) :
    Command Bank Row Column → Bool
  | .access kind place _ => kind == write && decide (place = bank)
  | _ => false

def Command.closes [DecidableEq Bank] (bank : Bank) : Command Bank Row Column → Bool
  | .precharge place => decide (place = bank)
  | .prechargeAll => true
  | _ => false

/-- The open rows, and the requests without their access, oldest first. -/
structure Chip (Bank Row Column : Type) where
  rows : Bank → Option Row
  waiting : List (Request Bank Row Column)

namespace Chip

variable [DecidableEq Bank]

def apply (chip : Chip Bank Row Column) : Command Bank Row Column → Chip Bank Row Column
  | .activate bank row => { chip with rows := Function.update chip.rows bank (some row) }
  | .precharge bank => { chip with rows := Function.update chip.rows bank none }
  | .prechargeAll => { chip with rows := fun _ => none }
  | .access .. => { chip with waiting := chip.waiting.tail }
  | .refresh => chip
  | .other => chip

def applyAll (chip : Chip Bank Row Column) (commands : List (Command Bank Row Column)) :
    Chip Bank Row Column :=
  commands.foldl apply chip

/-- A bank is activated when closed, accessed with the row of the request open,
and refreshed with all others closed too. -/
def Allows (chip : Chip Bank Row Column) : Command Bank Row Column → Prop
  | .activate bank _ => chip.rows bank = none
  | .precharge _ => True
  | .prechargeAll => True
  | .access write bank column => ∃ row rest,
      chip.waiting = ⟨write, bank, row, column⟩ :: rest ∧ chip.rows bank = some row
  | .refresh => ∀ bank, chip.rows bank = none
  | .other => True

/-- One command after the other. -/
def AllowsAll (chip : Chip Bank Row Column) : List (Command Bank Row Column) → Prop
  | [] => True
  | command :: rest => chip.Allows command ∧ (chip.apply command).AllowsAll rest

theorem applyAll_append (chip : Chip Bank Row Column) (first second : List (Command Bank Row Column)) :
    chip.applyAll (first ++ second) = (chip.applyAll first).applyAll second :=
  List.foldl_append

theorem allowsAll_append (chip : Chip Bank Row Column)
    (first second : List (Command Bank Row Column)) :
    chip.AllowsAll (first ++ second) ↔
      chip.AllowsAll first ∧ (chip.applyAll first).AllowsAll second := by
  induction first generalizing chip with
  | nil => exact ⟨fun rest => ⟨trivial, rest⟩, And.right⟩
  | cons command rest ih =>
      have rest := ih (chip.apply command)
      rw [List.cons_append, AllowsAll, AllowsAll, rest, and_assoc]
      rfl

end Chip

end ZipVersa.Lib.Dram
