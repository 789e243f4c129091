import Mathlib.Data.List.Count
import Mathlib.Data.List.Perm.Basic
import Mathlib.Tactic.Common

/-! Reference-counted cells. Each cell carries its own count; releasing the
last reference frees it. `Accounts` states that the counts are exactly the
references the program still holds, and that every other cell was freed once. -/

set_option autoImplicit false

namespace ZipVersa.Lib

/-- How a cell stores its reference count. -/
structure CountLens (Cell : Type) where
  count : Cell → Int
  setCount : Int → Cell → Cell
  count_setCount : ∀ value cell, count (setCount value cell) = value

/-- An allocator that never reuses an address and remembers every `free`. -/
structure Arena (Cell : Type) where
  cells : Nat → Option Cell
  next : Nat
  freed : List Nat

namespace Arena

variable {Cell : Type} (lens : CountLens Cell)

def alloc (arena : Arena Cell) (cell : Cell) : Arena Cell :=
  { arena with
    cells := Function.update arena.cells arena.next (some cell)
    next := arena.next + 1 }

/-- Apply a function to a live cell. -/
def modify (arena : Arena Cell) (address : Nat) (change : Cell → Cell) : Arena Cell :=
  { arena with
    cells := Function.update arena.cells address ((arena.cells address).map change) }

def retain (arena : Arena Cell) (address : Nat) : Arena Cell :=
  arena.modify address fun cell => lens.setCount (lens.count cell + 1) cell

/-- Drop one reference. Releasing an address that is no longer live is
recorded as one more `free` of it. -/
def release (arena : Arena Cell) (address : Nat) : Arena Cell :=
  match arena.cells address with
  | none => { arena with freed := arena.freed ++ [address] }
  | some cell =>
      let left := if 0 < lens.count cell then lens.count cell - 1 else lens.count cell
      if left = 0 then
        { arena with
          cells := Function.update arena.cells address none
          freed := arena.freed ++ [address] }
      else arena.modify address (lens.setCount left)

theorem release_cells_of_ne {arena : Arena Cell} {address other : Nat}
    (different : other ≠ address) :
    (arena.release lens address).cells other = arena.cells other := by
  unfold release
  split
  · rfl
  · next cell live =>
    generalize (if 0 < lens.count cell then lens.count cell - 1 else lens.count cell) = left
    by_cases last : left = 0
    · simp [last, different]
    · simp [last, modify, different]

@[simp] theorem release_next (arena : Arena Cell) (address : Nat) :
    (arena.release lens address).next = arena.next := by
  unfold release
  split
  · rfl
  · next cell live =>
    generalize (if 0 < lens.count cell then lens.count cell - 1 else lens.count cell) = left
    by_cases last : left = 0
    · simp [last]
    · simp [last, modify]

/-- The references held are `owners`, with multiplicity. -/
structure Accounts (arena : Arena Cell) (owners : List Nat) : Prop where
  counted : ∀ address cell, arena.cells address = some cell →
    lens.count cell = owners.count address
  held : ∀ address, arena.cells address = none ↔ address ∉ owners
  liveUnfreed : ∀ address ∈ owners, address ∉ arena.freed
  freedOnce : ∀ address < arena.next, address ∉ owners → arena.freed.count address = 1
  unallocated : ∀ address, arena.next ≤ address → address ∉ owners ∧ address ∉ arena.freed

variable {lens}

theorem Accounts.perm {arena : Arena Cell} {owners others : List Nat}
    (accounts : Accounts lens arena owners) (same : owners.Perm others) :
    Accounts lens arena others where
  counted address cell live := by rw [accounts.counted address cell live, same.count_eq]
  held address := by rw [accounts.held, same.mem_iff]
  liveUnfreed address member := accounts.liveUnfreed address (same.mem_iff.mpr member)
  freedOnce address old gone :=
    accounts.freedOnce address old (fun member => gone (same.mem_iff.mp member))
  unallocated address new := by
    rw [← same.mem_iff]
    exact accounts.unallocated address new

theorem Accounts.live {arena : Arena Cell} {owners : List Nat} {address : Nat}
    (accounts : Accounts lens arena owners) (member : address ∈ owners) :
    ∃ cell, arena.cells address = some cell := by
  cases found : arena.cells address with
  | none => exact absurd member ((accounts.held address).mp found)
  | some cell => exact ⟨cell, rfl⟩

theorem Accounts.lt_next {arena : Arena Cell} {owners : List Nat} {address : Nat}
    (accounts : Accounts lens arena owners) (member : address ∈ owners) :
    address < arena.next := by
  by_contra beyond
  exact (accounts.unallocated address (Nat.le_of_not_lt beyond)).1 member

theorem Accounts.alloc {arena : Arena Cell} {owners : List Nat} {cell : Cell}
    (accounts : Accounts lens arena owners) (single : lens.count cell = 1) :
    Accounts lens (arena.alloc cell) (arena.next :: owners) := by
  have fresh := accounts.unallocated arena.next (Nat.le_refl _)
  refine ⟨?_, ?_, ?_, ?_, ?_⟩
  · intro address found live
    by_cases new : address = arena.next
    · subst new
      simp only [Arena.alloc, Function.update_self, Option.some.injEq] at live
      subst live
      simpa [List.count_eq_zero_of_not_mem fresh.1] using single
    · simp only [Arena.alloc, Function.update_of_ne new] at live
      rw [List.count_cons_of_ne (Ne.symm new)]
      exact accounts.counted address found live
  · intro address
    by_cases new : address = arena.next
    · subst new
      simp [Arena.alloc]
    · simp [Arena.alloc, accounts.held address, new]
  · intro address member
    rcases List.mem_cons.mp member with rfl | member
    · exact fresh.2
    · exact accounts.liveUnfreed address member
  · intro address old gone
    have new : address ≠ arena.next := fun same => gone (by simp [same])
    change address < arena.next + 1 at old
    exact accounts.freedOnce address (by omega) fun member => gone (.tail _ member)
  · intro address beyond
    change arena.next + 1 ≤ address at beyond
    obtain ⟨unowned, unfreed⟩ := accounts.unallocated address (by omega)
    exact ⟨by simp [unowned, show address ≠ arena.next by omega], unfreed⟩

/-- A change of content that keeps the count keeps the accounts. -/
theorem Accounts.modify {arena : Arena Cell} {owners : List Nat} {address : Nat}
    {change : Cell → Cell} (accounts : Accounts lens arena owners)
    (same : ∀ cell, lens.count (change cell) = lens.count cell) :
    Accounts lens (arena.modify address change) owners := by
  refine ⟨?_, ?_, accounts.liveUnfreed, accounts.freedOnce, accounts.unallocated⟩
  · intro other cell live
    by_cases here : other = address
    · subst here
      simp only [Arena.modify, Function.update_self, Option.map_eq_some_iff] at live
      obtain ⟨before, found, rfl⟩ := live
      rw [same]
      exact accounts.counted other before found
    · simp only [Arena.modify, Function.update_of_ne here] at live
      exact accounts.counted other cell live
  · intro other
    by_cases here : other = address
    · subst here
      simp [Arena.modify, accounts.held]
    · simp [Arena.modify, Function.update_of_ne here, accounts.held]

theorem Accounts.retain {arena : Arena Cell} {owners : List Nat} {address : Nat}
    (accounts : Accounts lens arena owners) (member : address ∈ owners) :
    Accounts lens (arena.retain lens address) (address :: owners) := by
  have inCons : ∀ other, other ∈ address :: owners ↔ other ∈ owners := by
    intro other
    simp only [List.mem_cons, or_iff_right_iff_imp]
    rintro rfl
    exact member
  refine ⟨?_, ?_, ?_, ?_, ?_⟩
  · intro other cell live
    by_cases here : other = address
    · subst here
      simp only [Arena.retain, Arena.modify, Function.update_self,
        Option.map_eq_some_iff] at live
      obtain ⟨before, found, rfl⟩ := live
      rw [lens.count_setCount, accounts.counted other before found, List.count_cons_self]
      push_cast
      rfl
    · simp only [Arena.retain, Arena.modify, Function.update_of_ne here] at live
      rw [List.count_cons_of_ne (Ne.symm here)]
      exact accounts.counted other cell live
  · intro other
    rw [inCons]
    by_cases here : other = address
    · subst here
      simp [Arena.retain, Arena.modify, accounts.held]
    · simp [Arena.retain, Arena.modify, Function.update_of_ne here, accounts.held]
  · intro other owned
    exact accounts.liveUnfreed other ((inCons other).mp owned)
  · intro other old gone
    exact accounts.freedOnce other old fun owned => gone ((inCons other).mpr owned)
  · intro other beyond
    rw [inCons]
    exact accounts.unallocated other beyond

/-- One of several references is dropped. -/
theorem Accounts.release_shared {arena : Arena Cell} {owners : List Nat} {address : Nat}
    {cell : Cell} (accounts : Accounts lens arena (address :: owners))
    (found : arena.cells address = some cell) (remaining : address ∈ owners) :
    Accounts lens (arena.modify address (lens.setCount (owners.count address))) owners := by
  have inCons : ∀ other, other ∈ address :: owners ↔ other ∈ owners := by
    intro other
    simp only [List.mem_cons, or_iff_right_iff_imp]
    rintro rfl
    exact remaining
  refine ⟨?_, ?_, ?_, ?_, ?_⟩
  · intro other after live
    by_cases here : other = address
    · subst here
      simp only [Arena.modify, Function.update_self, found, Option.map_some,
        Option.some.injEq] at live
      subst live
      exact lens.count_setCount _ _
    · simp only [Arena.modify, Function.update_of_ne here] at live
      rw [accounts.counted other after live, List.count_cons_of_ne (Ne.symm here)]
  · intro other
    rw [← inCons]
    by_cases here : other = address
    · subst here
      simp [Arena.modify, found]
    · simp [Arena.modify, Function.update_of_ne here, accounts.held]
  · intro other owned
    exact accounts.liveUnfreed other ((inCons other).mpr owned)
  · intro other below gone
    exact accounts.freedOnce other below fun owned => gone ((inCons other).mp owned)
  · intro other beyond
    rw [← inCons]
    exact accounts.unallocated other beyond

/-- The last reference is dropped. -/
theorem Accounts.release_last {arena : Arena Cell} {owners : List Nat} {address : Nat}
    (accounts : Accounts lens arena (address :: owners)) (none : address ∉ owners) :
    Accounts lens { arena with
      cells := Function.update arena.cells address Option.none
      freed := arena.freed ++ [address] } owners := by
  have unfreed := accounts.liveUnfreed address (List.mem_cons_self)
  refine ⟨?_, ?_, ?_, ?_, ?_⟩
  · intro other after live
    by_cases here : other = address
    · subst here
      simp at live
    · simp only [Function.update_of_ne here] at live
      rw [accounts.counted other after live, List.count_cons_of_ne (Ne.symm here)]
  · intro other
    by_cases here : other = address
    · subst here
      simp [none]
    · simp [accounts.held, here]
  · intro other owned
    have here : other ≠ address := fun same => none (same ▸ owned)
    have := accounts.liveUnfreed other (.tail _ owned)
    simp [this, here]
  · intro other below gone
    by_cases here : other = address
    · subst here
      simp [List.count_eq_zero_of_not_mem unfreed]
    · have := accounts.freedOnce other below (by simp [here, gone])
      simpa [List.count_cons_of_ne (Ne.symm here)] using this
  · intro other beyond
    obtain ⟨unowned, untouched⟩ := accounts.unallocated other beyond
    have here : other ≠ address := by
      rintro rfl
      exact unowned (List.mem_cons_self)
    exact ⟨fun owned => unowned (.tail _ owned), by simp [untouched, here]⟩

/-- Releasing one held reference: the cell stays live while others remain and
is freed, for the first time, with the last. -/
theorem Accounts.release {arena : Arena Cell} {owners : List Nat} {address : Nat}
    (accounts : Accounts lens arena (address :: owners)) :
    Accounts lens (arena.release lens address) owners := by
  obtain ⟨cell, found⟩ := accounts.live (List.mem_cons_self)
  have count := accounts.counted address cell found
  rw [List.count_cons_self] at count
  have left : (if 0 < lens.count cell then lens.count cell - 1 else lens.count cell) =
      (owners.count address : Int) := by
    rw [if_pos (by omega)]
    omega
  unfold Arena.release
  simp only [found, left]
  by_cases remaining : address ∈ owners
  · have positive : (owners.count address : Int) ≠ 0 := by
      have := List.count_pos_iff.mpr remaining
      omega
    rw [if_neg positive]
    exact accounts.release_shared found remaining
  · rw [if_pos (by simp [List.count_eq_zero_of_not_mem remaining])]
    exact accounts.release_last remaining

end Arena

end ZipVersa.Lib
