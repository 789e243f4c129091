import ZipVersa.Ddr.Pipes

/-! The refresh script takes the command bus away from the pipes and gives it
back. It stalls the bus, waits for the requests already accepted, and closes
all banks before the chip is refreshed. -/

set_option autoImplicit false

namespace ZipVersa.Ddr

open Lib

/-! ### The script by itself -/

namespace Refresh

variable {script : Refresh}

/-- Between refreshes. -/
structure Waits (script : Refresh) : Prop where
  line : (script.addr = 0 ∧ script.instruction = initialRefreshInstruction) ∨
    (script.addr = 1 ∧ script.instruction = getRefreshInstruction 0) ∨
    (script.addr = 2 ∧ script.instruction = getRefreshInstruction 1)
  needRefresh : script.needRefresh = false
  preRefreshStall : script.preRefreshStall = false

/-- The first clock of `pre_refresh_stall`. -/
def begins : Refresh where
  addr := 3
  ztimer := false
  counter := 3
  instruction := getRefreshInstruction 2
  cmdOp := .noop
  cmdArg := 3
  needRefresh := false
  preRefreshStall := true

/-- The script that many clocks later. -/
def takeover : Nat → Refresh
  | 0 => begins
  | count + 1 => (takeover count).step

theorem initial_waits : initial.Waits := ⟨.inl ⟨rfl, rfl⟩, rfl, rfl⟩

theorem Waits.step (waits : script.Waits) : script.step.Waits ∨ script.step = takeover 0 := by
  obtain ⟨line, needRefresh, preRefreshStall⟩ := waits
  cases ztimer : script.ztimer with
  | false =>
      refine .inl ⟨?_, ?_, ?_⟩
      · rcases line with ⟨addr, same⟩ | ⟨addr, same⟩ | ⟨addr, same⟩
        · exact .inl ⟨by simp [Refresh.step, ztimer, same, addr], by simp [Refresh.step, ztimer, same]⟩
        · exact .inr (.inl ⟨by simp [Refresh.step, ztimer, same, addr]; decide,
            by simp [Refresh.step, ztimer, same]⟩)
        · exact .inr (.inr ⟨by simp [Refresh.step, ztimer, same, addr]; decide,
            by simp [Refresh.step, ztimer, same]⟩)
      · simp [Refresh.step, ztimer, needRefresh]
      · simp [Refresh.step, ztimer, preRefreshStall]
  | true =>
      rcases line with ⟨addr, same⟩ | ⟨addr, same⟩ | ⟨addr, same⟩
      · refine .inl ⟨.inr (.inl ?_), ?_, ?_⟩ <;> simp [Refresh.step, ztimer, same, addr] <;> decide
      · refine .inl ⟨.inr (.inr ?_), ?_, ?_⟩ <;> simp [Refresh.step, ztimer, same, addr] <;> decide
      · have timer : (getRefreshInstruction 1).rfTimer = true := rfl
        refine .inr ?_
        simp only [Refresh.step, ztimer, same, addr, timer, if_true, takeover, begins]
        rfl

theorem takeover_ends : (takeover 18).Waits :=
  ⟨by decide, by decide, by decide⟩

theorem takeover_stalls {count : Nat} (within : count < 18) :
    (takeover count).preRefreshStall = true ∧
      (takeover count).needRefresh = decide (4 ≤ count) := by
  have all : ∀ count : Fin 18, (takeover count).preRefreshStall = true ∧
      (takeover count).needRefresh = decide (4 ≤ count.val) := by decide
  exact all ⟨count, within⟩

/-- No further than so many clocks after `pre_refresh_stall`. -/
def Upto (limit : Nat) (script : Refresh) : Prop :=
  script.Waits ∨ ∃ count ≤ limit, script = takeover count

theorem Upto.step {limit : Nat} (upto : script.Upto limit) : script.step.Upto (limit + 1) := by
  rcases upto with waits | ⟨count, within, rfl⟩
  · rcases waits.step with next | begins
    · exact .inl next
    · exact .inr ⟨0, Nat.zero_le _, begins⟩
  · exact .inr ⟨count + 1, Nat.succ_le_succ within, rfl⟩

/-- `need_refresh` is up for longer than that. -/
theorem Upto.stays {limit : Nat} (upto : script.Upto limit) (within : limit < 17)
    (needs : script.needRefresh = true) : script.step.needRefresh = true := by
  rcases upto with waits | ⟨count, early, rfl⟩
  · exact absurd (waits.needRefresh.symm.trans needs) Bool.false_ne_true
  · have before := (@takeover_stalls count (by omega)).2
    have after := (@takeover_stalls (count + 1) (by omega)).2
    rw [needs] at before
    refine after.trans (decide_eq_true ?_)
    exact Nat.le_succ_of_le (of_decide_eq_true before.symm)

/-- From one refresh to the next no state comes twice. -/
theorem takeover_injective {first second : Nat} (early : first < 18) (late : second < 18)
    (same : takeover (first + 1) = takeover (second + 1)) : first = second := by
  have all : ∀ first second : Fin 18,
      takeover (first + 1) = takeover (second + 1) → first = second := by decide
  exact congrArg Fin.val (all ⟨first, early⟩ ⟨second, late⟩ same)

theorem takeover_precharge {count : Nat} (within : count < 18)
    (precharge : (takeover count).cmdOp = .precharge) : count = 5 := by
  have all : ∀ count : Fin 18, (takeover count).cmdOp = .precharge → count.val = 5 := by decide
  exact all ⟨count, within⟩ precharge

end Refresh

end ZipVersa.Ddr
