import ZipVersa.Lib.Ring
import ZipVersa.Lib.Queue

/-! `wbufifo`: a ring memory with an output register behind it and registered
flags. It is a queue of `2 ^ LGFLEN + 1` words, and refuses only when that many
are in it and none is taken. -/

set_option autoImplicit false

namespace ZipVersa.DebugBus

open Lib

structure Fifo (lg : Nat) (α : Type) where
  fifo : BitVec lg → α
  wrptr : BitVec (lg + 1)
  rdptr : BitVec (lg + 1)
  willOverflow : Bool
  willUnderflow : Bool
  rEmptyN : Bool
  data : α
  emptyN : Bool

namespace Fifo

variable {lg : Nat} {α : Type}

def wWrite (fifo : Fifo lg α) (iWr iRd : Bool) : Bool := iWr && (!fifo.willOverflow || iRd)

def wRead (fifo : Fifo lg α) (iRd : Bool) : Bool := (iRd || !fifo.emptyN) && !fifo.willUnderflow

/-- One rising edge with `i_reset` low. -/
def step (fifo : Fifo lg α) (iWr : Bool) (iData : α) (iRd : Bool) : Fifo lg α where
  willOverflow :=
    if iRd then fifo.willOverflow && iWr
    else if fifo.wWrite iWr iRd then
      (fifo.wrptr + 1).setWidth lg == fifo.rdptr.setWidth lg &&
        (fifo.wrptr + 1).msb != fifo.rdptr.msb
    else fifo.willOverflow
  wrptr := if fifo.wWrite iWr iRd then fifo.wrptr + 1 else fifo.wrptr
  fifo :=
    if fifo.wWrite iWr iRd then Function.update fifo.fifo (fifo.wrptr.setWidth lg) iData
    else fifo.fifo
  willUnderflow :=
    if iWr then false
    else if fifo.wRead iRd then fifo.willUnderflow || fifo.rdptr + 1 == fifo.wrptr
    else fifo.willUnderflow
  rdptr := if fifo.wRead iRd && fifo.rEmptyN then fifo.rdptr + 1 else fifo.rdptr
  data :=
    if fifo.wRead iRd && fifo.rEmptyN then fifo.fifo (fifo.rdptr.setWidth lg) else fifo.data
  rEmptyN :=
    if fifo.wWrite iWr iRd && !fifo.wRead iRd then true
    else if !fifo.wWrite iWr iRd && fifo.wRead iRd then fifo.wrptr != fifo.rdptr + 1
    else fifo.rEmptyN
  emptyN := if !fifo.emptyN || iRd then fifo.rEmptyN else fifo.emptyN

/-- A word that is offered and not taken in. -/
def refuses (fifo : Fifo lg α) (iWr iRd : Bool) : Bool := iWr && fifo.willOverflow && !iRd

/-- The registers with `count` words in the memory. -/
structure Sound (fifo : Fifo lg α) (count : Nat) : Prop where
  wrptr : fifo.wrptr = fifo.rdptr + BitVec.ofNat (lg + 1) count
  inside : count ≤ 2 ^ lg
  willOverflow : fifo.willOverflow = decide (count = 2 ^ lg)
  willUnderflow : fifo.willUnderflow = decide (count = 0)
  rEmptyN : fifo.rEmptyN = decide (count ≠ 0)
  -- the output register is empty for one clock only, while its first word is fetched
  filled : fifo.emptyN = false → count ≤ 1

/-- The same as far as it stands for a ring of two places, where the overflow
flag may be up although a word is just leaving the memory. -/
structure Holds (fifo : Fifo lg α) (count : Nat) : Prop where
  wrptr : fifo.wrptr = fifo.rdptr + BitVec.ofNat (lg + 1) count
  inside : count ≤ 2 ^ lg
  full : count = 2 ^ lg → fifo.willOverflow = true
  refusing : fifo.willOverflow = true → 2 ^ lg ≤ count + (if fifo.emptyN then 1 else 0)
  willUnderflow : fifo.willUnderflow = decide (count = 0)
  rEmptyN : fifo.rEmptyN = decide (count ≠ 0)
  filled : fifo.emptyN = false → count ≤ 1

/-- The words in the output register and in the memory. -/
def queue (fifo : Fifo lg α) (count : Nat) : List α :=
  (if fifo.emptyN then [fifo.data] else []) ++ stored fifo.fifo fifo.rdptr count

variable {fifo : Fifo lg α} {count : Nat}

theorem queue_cons (fifo : Fifo lg α) (count : Nat) (some : fifo.emptyN = true) :
    fifo.queue count = fifo.data :: (fifo.queue count).tail := by
  simp [queue, some]

theorem Sound.holds (sound : fifo.Sound count) : fifo.Holds count where
  wrptr := sound.wrptr
  inside := sound.inside
  full full := by rw [sound.willOverflow, decide_eq_true full]
  refusing overflow := by
    have full : count = 2 ^ lg := by simpa [sound.willOverflow] using overflow
    omega
  willUnderflow := sound.willUnderflow
  rEmptyN := sound.rEmptyN
  filled := sound.filled

theorem Sound.queue_length (sound : fifo.Sound count) (overflow : fifo.willOverflow = true)
    (big : 2 ≤ lg) : (fifo.queue count).length = 2 ^ lg + 1 := by
  have full : count = 2 ^ lg := by simpa [sound.willOverflow] using overflow
  have four : 2 ^ 2 ≤ 2 ^ lg := Nat.pow_le_pow_right (by decide) big
  cases empty : fifo.emptyN with
  | false =>
      have := sound.filled empty
      omega
  | true => simp [queue, empty, full, Nat.add_comm]

theorem Holds.wRead (holds : fifo.Holds count) (iRd : Bool) :
    fifo.wRead iRd = ((iRd || !fifo.emptyN) && decide (count ≠ 0)) := by
  simp [Fifo.wRead, holds.willUnderflow]

/-- How many words the memory holds after a clock. -/
def next (fifo : Fifo lg α) (count : Nat) (iWr iRd : Bool) : Nat :=
  count + (if fifo.wWrite iWr iRd then 1 else 0) - (if fifo.wRead iRd then 1 else 0)

theorem Holds.read_pos (holds : fifo.Holds count) {iRd : Bool} (read : fifo.wRead iRd = true) :
    0 < count ∧ (iRd = true ∨ fifo.emptyN = false) := by
  rw [holds.wRead] at read
  simp at read
  exact ⟨Nat.pos_of_ne_zero read.2, by simpa using read.1⟩

theorem Holds.idle_read (holds : fifo.Holds count) {iRd : Bool} (read : fifo.wRead iRd = false)
    (asked : iRd = true ∨ fifo.emptyN = false) : count = 0 := by
  rw [holds.wRead] at read
  simp at read
  rcases asked with taken | empty
  · exact read (.inl taken)
  · exact read (.inr empty)

/-- A word that is taken in finds room, or makes it at this clock. -/
theorem Holds.write_room (holds : fifo.Holds count) {iWr iRd : Bool}
    (write : fifo.wWrite iWr iRd = true) (read : fifo.wRead iRd = false) : count < 2 ^ lg := by
  have inside := holds.inside
  have positive : 0 < 2 ^ lg := Nat.two_pow_pos lg
  simp only [wWrite, Bool.and_eq_true, Bool.or_eq_true, Bool.not_eq_true'] at write
  rcases write.2 with room | taken
  · have apart : count ≠ 2 ^ lg := fun full => by
      rw [holds.full full] at room
      cases room
    omega
  · have zero := holds.idle_read read (.inl taken)
    omega

theorem Holds.wRead_and (holds : fifo.Holds count) (iRd : Bool) :
    (fifo.wRead iRd && fifo.rEmptyN) = fifo.wRead iRd := by
  rw [holds.wRead, holds.rEmptyN, Bool.and_assoc, Bool.and_self]

theorem Holds.step_rdptr (holds : fifo.Holds count) (iWr : Bool) (iData : α) (iRd : Bool) :
    (fifo.step iWr iData iRd).rdptr = if fifo.wRead iRd then fifo.rdptr + 1 else fifo.rdptr := by
  simp only [step, holds.wRead_and]

theorem Holds.step_data (holds : fifo.Holds count) (iWr : Bool) (iData : α) (iRd : Bool) :
    (fifo.step iWr iData iRd).data =
      if fifo.wRead iRd then fifo.fifo (fifo.rdptr.setWidth lg) else fifo.data := by
  simp only [step, holds.wRead_and]

theorem step_wrptr (fifo : Fifo lg α) (iWr : Bool) (iData : α) (iRd : Bool) :
    (fifo.step iWr iData iRd).wrptr =
      if fifo.wWrite iWr iRd then fifo.wrptr + 1 else fifo.wrptr := rfl

theorem Holds.full_next (holds : fifo.Holds count) (room : count < 2 ^ lg) :
    ((fifo.wrptr + 1).setWidth lg == fifo.rdptr.setWidth lg &&
      (fifo.wrptr + 1).msb != fifo.rdptr.msb) = decide (count + 1 = 2 ^ lg) := by
  rw [holds.wrptr, pointer_push, Bool.eq_iff_iff, Bool.and_eq_true, beq_iff_eq, bne_iff_ne,
    decide_eq_true_iff]
  exact full_iff room

theorem Holds.last_word (holds : fifo.Holds count) :
    (fifo.rdptr + 1 == fifo.wrptr) = decide (count = 1) := by
  rw [holds.wrptr, Bool.eq_iff_iff, beq_iff_eq, decide_eq_true_iff, eq_comm]
  exact pointer_inj holds.inside Nat.one_le_two_pow

/-- The flag is down while the output register is empty. -/
theorem Holds.open_empty (holds : fifo.Holds count) (places : 2 ≤ 2 ^ lg)
    (empty : fifo.emptyN = false) : fifo.willOverflow = false :=
  Bool.eq_false_iff.mpr fun overflow => by
    have few := holds.filled empty
    have many := holds.refusing overflow
    rw [empty, if_neg Bool.false_ne_true] at many
    omega

/-- A word is asked for and none is there: the flag is down, or goes down. -/
theorem Holds.open_idle (holds : fifo.Holds count) (places : 2 ≤ 2 ^ lg) {iRd : Bool}
    (read : fifo.wRead iRd = false) (taken : iRd = true) : fifo.willOverflow = false :=
  Bool.eq_false_iff.mpr fun overflow => by
    have zero := holds.idle_read read (.inl taken)
    have many := holds.refusing overflow
    split at many <;> omega

/-- The output register is filled from the memory. -/
theorem Holds.step_shown (holds : fifo.Holds count) (iWr : Bool) (iData : α) {iRd : Bool}
    (read : fifo.wRead iRd = true) : (fifo.step iWr iData iRd).emptyN = true := by
  obtain ⟨some, cause⟩ := holds.read_pos read
  have none : count ≠ 0 := Nat.ne_of_gt some
  rcases cause with taken | before
  · simp [Fifo.step, taken, holds.rEmptyN, none]
  · simp [Fifo.step, before, holds.rEmptyN, none]

/-- The output register is or becomes empty, and nothing is in the memory. -/
theorem Holds.step_hidden (holds : fifo.Holds count) (iWr : Bool) (iData : α) {iRd : Bool}
    (read : fifo.wRead iRd = false) (empty : (fifo.step iWr iData iRd).emptyN = false) :
    count = 0 := by
  refine holds.idle_read read ?_
  by_contra neither
  simp only [not_or, Bool.not_eq_true, Bool.not_eq_false] at neither
  simp [Fifo.step, neither.1, neither.2] at empty

theorem Holds.step_both (holds : fifo.Holds count) (places : 2 ≤ 2 ^ lg) {iWr iRd : Bool}
    (iData : α) (read : fifo.wRead iRd = true) (write : fifo.wWrite iWr iRd = true) :
    (fifo.step iWr iData iRd).Holds count := by
  obtain ⟨some, cause⟩ := holds.read_pos read
  have shown := holds.step_shown iWr iData read
  have pushed : iWr = true := by
    simp only [wWrite, Bool.and_eq_true] at write
    exact write.1
  have none : count ≠ 0 := Nat.ne_of_gt some
  refine ⟨?_, holds.inside, fun full => ?_, fun refuses => ?_, ?_, ?_, fun empty => ?_⟩
  · obtain ⟨before, rfl⟩ := Nat.exists_eq_succ_of_ne_zero none
    rw [holds.step_rdptr, read, if_pos rfl, step_wrptr, write, if_pos rfl, holds.wrptr,
      pointer_push, pointer_succ]
  · have taken : iRd = true := cause.resolve_right fun empty => by
      have few := holds.filled empty
      omega
    simp only [Fifo.step, taken, pushed, Bool.and_true, if_true]
    exact holds.full full
  · rw [shown, if_pos rfl]
    cases iRd with
    | true =>
        simp only [Fifo.step, pushed, Bool.and_true, if_true] at refuses
        have many := holds.refusing refuses
        split at many <;> omega
    | false =>
        have few := holds.filled (cause.resolve_left Bool.false_ne_true)
        simp only [Fifo.step, write, Bool.false_eq_true, if_true, if_false] at refuses
        rw [holds.full_next (by omega), decide_eq_true_iff] at refuses
        omega
  · simp [Fifo.step, pushed, none]
  · simp [Fifo.step, read, write, holds.rEmptyN]
  · rw [shown] at empty
    cases empty

/-- A word leaves the memory for the output register while none is written: the
overflow flag was down already, or goes down. -/
theorem Holds.quiet_read (holds : fifo.Holds count) (places : 2 ≤ 2 ^ lg) {iWr iRd : Bool}
    (iData : α) (read : fifo.wRead iRd = true) (write : fifo.wWrite iWr iRd = false) :
    iWr = false ∧ (fifo.step iWr iData iRd).willOverflow = false := by
  obtain ⟨-, cause⟩ := holds.read_pos read
  cases iRd with
  | true =>
      have quiet : iWr = false := by simpa [wWrite] using write
      exact ⟨quiet, by simp [Fifo.step, quiet]⟩
  | false =>
      have down := holds.open_empty places (cause.resolve_left Bool.false_ne_true)
      have quiet : iWr = false := by simpa [wWrite, down] using write
      exact ⟨quiet, by simp [Fifo.step, write, down]⟩

theorem Holds.step_read (holds : fifo.Holds count) (places : 2 ≤ 2 ^ lg) {iWr iRd : Bool}
    (iData : α) (read : fifo.wRead iRd = true) (write : fifo.wWrite iWr iRd = false) :
    (fifo.step iWr iData iRd).Holds (count - 1) := by
  obtain ⟨some, -⟩ := holds.read_pos read
  obtain ⟨quiet, down⟩ := holds.quiet_read places iData read write
  have shown := holds.step_shown iWr iData read
  have none : count ≠ 0 := Nat.ne_of_gt some
  have inside := holds.inside
  refine ⟨?_, by omega, fun full => ?_, fun refuses => ?_, ?_, ?_, fun empty => ?_⟩
  · obtain ⟨before, rfl⟩ := Nat.exists_eq_succ_of_ne_zero none
    rw [holds.step_rdptr, read, if_pos rfl, step_wrptr, write, if_neg Bool.false_ne_true,
      holds.wrptr, pointer_succ, Nat.succ_sub_one]
  · omega
  · rw [down] at refuses
    cases refuses
  · simp only [Fifo.step, quiet, read, holds.last_word, holds.willUnderflow, none,
      Bool.false_eq_true, if_true, if_false, decide_false, Bool.false_or]
    rw [decide_eq_decide]
    omega
  · have other : (fifo.wrptr != fifo.rdptr + 1) = decide (count ≠ 1) := by
      rw [bne, BEq.comm, holds.last_word, decide_not]
    simp only [Fifo.step, read, write, other, Bool.false_and, Bool.not_false, Bool.true_and,
      Bool.false_eq_true, if_true, if_false]
    rw [decide_eq_decide]
    omega
  · rw [shown] at empty
    cases empty

/-- The overflow flag when a word is written and none leaves the memory. -/
theorem Holds.written_overflow (holds : fifo.Holds count) (places : 2 ≤ 2 ^ lg) {iWr iRd : Bool}
    (iData : α) (read : fifo.wRead iRd = false) (write : fifo.wWrite iWr iRd = true) :
    (fifo.step iWr iData iRd).willOverflow = decide (count + 1 = 2 ^ lg) := by
  cases iRd with
  | true =>
      have zero := holds.idle_read read (.inl rfl)
      have down := holds.open_idle places read rfl
      simp only [Fifo.step, if_true, down, Bool.false_and]
      rw [eq_comm, decide_eq_false_iff_not]
      omega
  | false =>
      simp only [Fifo.step, write, Bool.false_eq_true, if_true, if_false]
      exact holds.full_next (holds.write_room write read)

theorem Holds.step_write (holds : fifo.Holds count) (places : 2 ≤ 2 ^ lg) {iWr iRd : Bool}
    (iData : α) (read : fifo.wRead iRd = false) (write : fifo.wWrite iWr iRd = true) :
    (fifo.step iWr iData iRd).Holds (count + 1) := by
  have overflow := holds.written_overflow places iData read write
  have pushed : iWr = true := by
    simp only [wWrite, Bool.and_eq_true] at write
    exact write.1
  refine ⟨?_, holds.write_room write read, fun full => ?_, fun refuses => ?_, ?_, ?_,
    fun empty => ?_⟩
  · rw [holds.step_rdptr, read, if_neg Bool.false_ne_true, step_wrptr, write, if_pos rfl,
      holds.wrptr, pointer_push]
  · rw [overflow, decide_eq_true full]
  · rw [overflow, decide_eq_true_iff] at refuses
    omega
  · simp [Fifo.step, pushed]
  · simp [Fifo.step, read, write]
  · have zero := holds.step_hidden iWr iData read empty
    omega

theorem Holds.step_neither (holds : fifo.Holds count) (places : 2 ≤ 2 ^ lg) {iWr iRd : Bool}
    (iData : α) (read : fifo.wRead iRd = false) (write : fifo.wWrite iWr iRd = false) :
    (fifo.step iWr iData iRd).Holds count := by
  have kept : (fifo.step iWr iData iRd).willOverflow = fifo.willOverflow := by
    cases iRd with
    | true =>
        have down := holds.open_idle places read rfl
        simp [Fifo.step, down]
    | false => simp [Fifo.step, write]
  refine ⟨?_, holds.inside, fun full => ?_, fun refuses => ?_, ?_, ?_, fun empty => ?_⟩
  · rw [holds.step_rdptr, read, if_neg Bool.false_ne_true, step_wrptr, write,
      if_neg Bool.false_ne_true, holds.wrptr]
  · rw [kept]
    exact holds.full full
  · rw [kept] at refuses
    have many := holds.refusing refuses
    cases empty : (fifo.step iWr iData iRd).emptyN with
    | true =>
        rw [if_pos rfl]
        split at many <;> omega
    | false =>
        have zero := holds.step_hidden iWr iData read empty
        split at many <;> omega
  · cases iWr with
    | true =>
        have some : count ≠ 0 := fun zero => by
          simp [wWrite] at write
          have many := holds.refusing write.1
          split at many <;> omega
        simp [Fifo.step, some]
    | false =>
        simp only [Fifo.step, read, Bool.false_eq_true, if_false]
        exact holds.willUnderflow
  · simp [Fifo.step, read, write, holds.rEmptyN]
  · rw [holds.step_hidden iWr iData read empty]
    exact Nat.zero_le _

theorem Holds.step (holds : fifo.Holds count) (places : 2 ≤ 2 ^ lg) (iWr : Bool) (iData : α)
    (iRd : Bool) : (fifo.step iWr iData iRd).Holds (fifo.next count iWr iRd) := by
  cases read : fifo.wRead iRd with
  | true =>
      cases write : fifo.wWrite iWr iRd with
      | true => simpa [next, read, write] using holds.step_both places iData read write
      | false => simpa [next, read, write] using holds.step_read places iData read write
  | false =>
      cases write : fifo.wWrite iWr iRd with
      | true => simpa [next, read, write] using holds.step_write places iData read write
      | false => simpa [next, read, write] using holds.step_neither places iData read write

/-- In a larger ring the overflow flag is exact. -/
theorem Sound.step_overflow (sound : fifo.Sound count) (big : 2 ≤ lg) (iWr : Bool) (iData : α)
    (iRd : Bool) :
    (fifo.step iWr iData iRd).willOverflow = decide (fifo.next count iWr iRd = 2 ^ lg) := by
  have holds := sound.holds
  have four : 2 ^ 2 ≤ 2 ^ lg := Nat.pow_le_pow_right (by decide) big
  have inside := sound.inside
  cases read : fifo.wRead iRd with
  | true =>
      obtain ⟨some, cause⟩ := holds.read_pos read
      cases write : fifo.wWrite iWr iRd with
      | true =>
          have pushed : iWr = true := by
            simp only [wWrite, Bool.and_eq_true] at write
            exact write.1
          have same : fifo.next count iWr iRd = count := by simp [next, read, write]
          rw [same]
          cases iRd with
          | true =>
              simp only [Fifo.step, pushed, Bool.and_true, if_true]
              exact sound.willOverflow
          | false =>
              have few := sound.filled (cause.resolve_left Bool.false_ne_true)
              simp only [Fifo.step, write, Bool.false_eq_true, if_true, if_false]
              rw [holds.full_next (by omega), decide_eq_decide]
              omega
      | false =>
          have fewer : fifo.next count iWr iRd = count - 1 := by simp [next, read, write]
          rw [fewer, (holds.quiet_read (by omega) iData read write).2, eq_comm,
            decide_eq_false_iff_not]
          omega
  | false =>
      cases write : fifo.wWrite iWr iRd with
      | true =>
          have more : fifo.next count iWr iRd = count + 1 := by simp [next, read, write]
          rw [more]
          exact holds.written_overflow (by omega) iData read write
      | false =>
          have same : fifo.next count iWr iRd = count := by simp [next, read, write]
          rw [same]
          cases iRd with
          | true =>
              have down := holds.open_idle (by omega) read rfl
              rw [← sound.willOverflow, down]
              simp [Fifo.step, down]
          | false =>
              simp only [Fifo.step, write, Bool.false_eq_true, if_false]
              exact sound.willOverflow

theorem Sound.step (sound : fifo.Sound count) (big : 2 ≤ lg) (iWr : Bool) (iData : α) (iRd : Bool) :
    (fifo.step iWr iData iRd).Sound (fifo.next count iWr iRd) := by
  have four : 2 ^ 2 ≤ 2 ^ lg := Nat.pow_le_pow_right (by decide) big
  have holds := sound.holds.step (by omega) iWr iData iRd
  exact ⟨holds.wrptr, holds.inside, sound.step_overflow big iWr iData iRd, holds.willUnderflow,
    holds.rEmptyN, holds.filled⟩

/-- The memory behind a read pointer, after what the clock writes. -/
theorem stored_step (fifo : Fifo lg α) {rdptr : BitVec (lg + 1)} {held : Nat} (iWr : Bool)
    (iData : α) (iRd : Bool) (wrptr : fifo.wrptr = rdptr + BitVec.ofNat (lg + 1) held)
    (room : fifo.wWrite iWr iRd = true → held < 2 ^ lg) :
    stored (fifo.step iWr iData iRd).fifo rdptr
        (held + (if fifo.wWrite iWr iRd then 1 else 0)) =
      stored fifo.fifo rdptr held ++ (if fifo.wWrite iWr iRd then [iData] else []) := by
  simp only [step]
  cases write : fifo.wWrite iWr iRd with
  | false => simp
  | true =>
      simp only [if_true]
      rw [wrptr, stored_push _ _ (room write)]

/-- A clock takes the head of the queue and appends what is taken in. -/
theorem Holds.step_queue (holds : fifo.Holds count) (iWr : Bool) (iData : α)
    {iRd : Bool} (legal : iRd = true → fifo.emptyN = true) :
    (fifo.step iWr iData iRd).queue (fifo.next count iWr iRd) =
      (if iRd then (fifo.queue count).tail else fifo.queue count) ++
        (if fifo.wWrite iWr iRd then [iData] else []) := by
  rw [queue, queue, holds.step_rdptr, holds.step_data, next]
  cases read : fifo.wRead iRd with
  | false =>
      have kept := stored_step fifo iWr iData iRd holds.wrptr
        (fun write => holds.write_room write read)
      simp only [Bool.false_eq_true, if_false, Nat.sub_zero, kept]
      cases iRd with
      | true =>
          have zero := holds.idle_read read (.inl rfl)
          have full := legal rfl
          simp [Fifo.step, holds.rEmptyN, zero, full]
      | false =>
          cases empty : fifo.emptyN with
          | true => simp [Fifo.step, empty]
          | false =>
              have zero := holds.idle_read read (.inr empty)
              simp [Fifo.step, holds.rEmptyN, zero, empty]
  | true =>
      obtain ⟨some, cause⟩ := holds.read_pos read
      obtain ⟨before, rfl⟩ := Nat.exists_eq_succ_of_ne_zero (Nat.ne_of_gt some)
      have moved : fifo.wrptr = fifo.rdptr + 1 + BitVec.ofNat (lg + 1) before := by
        rw [pointer_succ]
        exact holds.wrptr
      have kept := stored_step fifo iWr iData iRd moved (fun _ => holds.inside)
      have shown := holds.step_shown iWr iData read
      have fewer : (before.succ + if fifo.wWrite iWr iRd = true then 1 else 0) - 1 =
          before + if fifo.wWrite iWr iRd = true then 1 else 0 := by omega
      simp only [if_true, shown, fewer, kept]
      rw [Nat.succ_eq_add_one, stored_pop]
      cases iRd with
      | true =>
          rw [legal rfl]
          simp
      | false =>
          have empty := cause.resolve_left Bool.false_ne_true
          rw [empty]
          simp

theorem Sound.step_queue (sound : fifo.Sound count) (iWr : Bool) (iData : α)
    {iRd : Bool} (legal : iRd = true → fifo.emptyN = true) :
    (fifo.step iWr iData iRd).queue (fifo.next count iWr iRd) =
      (if iRd then (fifo.queue count).tail else fifo.queue count) ++
        (if fifo.wWrite iWr iRd then [iData] else []) := sound.holds.step_queue iWr iData legal

/-! ### Runs -/

/-- The wires into the circuit at a clock with `i_reset` low. -/
structure Clock (α : Type) where
  iWr : Bool
  iData : α
  iRd : Bool
  deriving DecidableEq, Repr

def clock (fifo : Fifo lg α) (clock : Clock α) : Fifo lg α :=
  fifo.step clock.iWr clock.iData clock.iRd

/-- A clock with `i_reset` high. The memory and the output are not reset. -/
def afterReset (fifo : Fifo lg α) (clock : Clock α) : Fifo lg α :=
  { fifo.step clock.iWr clock.iData clock.iRd with
    willOverflow := false
    wrptr := 0
    willUnderflow := true
    rdptr := 0
    rEmptyN := false
    emptyN := false }

def oErr (fifo : Fifo lg α) (clock : Clock α) : Bool :=
  clock.iWr && fifo.willOverflow && !clock.iRd || clock.iRd && !fifo.emptyN

/-- The word taken in at a clock. -/
def takes (fifo : Fifo lg α) (clock : Clock α) : List α :=
  if fifo.wWrite clock.iWr clock.iRd then [clock.iData] else []

/-- The word read at a clock. -/
def gives (fifo : Fifo lg α) (clock : Clock α) : List α := if clock.iRd then [fifo.data] else []

/-- A word is asked for only while one is shown. -/
def Legal (fifo : Fifo lg α) (clock : Clock α) : Prop := clock.iRd = true → fifo.emptyN = true

instance (fifo : Fifo lg α) (clock : Clock α) : Decidable (fifo.Legal clock) :=
  inferInstanceAs (Decidable (_ → _))

/-- What can be told of the words that have come in and have not been read: the
first of them is shown, or there is one that is shown a clock later; a word is
refused with an error, and only where there are `2 ^ LGFLEN` of them. -/
structure Presents (fifo : Fifo lg α) (unread : List α) : Prop where
  shown : fifo.emptyN = true → unread.head? = some fifo.data
  hidden : fifo.emptyN = false → unread.length ≤ 1 ∧
    (unread ≠ [] → ∀ clock, (fifo.clock clock).emptyN = true)
  refused : ∀ clock : Clock α, clock.iWr = true → fifo.takes clock = [] →
    fifo.oErr clock = true ∧ 2 ^ lg ≤ unread.length

theorem afterReset_holds (fifo : Fifo lg α) (clock : Clock α) : (fifo.afterReset clock).Holds 0 where
  wrptr := (BitVec.add_zero 0).symm
  inside := Nat.zero_le _
  full zero := absurd zero (Nat.ne_of_lt (Nat.two_pow_pos lg))
  refusing overflow := nomatch overflow
  willUnderflow := rfl
  rEmptyN := rfl
  filled _ := Nat.zero_le 1

theorem length_queue (fifo : Fifo lg α) (count : Nat) :
    (fifo.queue count).length = (if fifo.emptyN then 1 else 0) + count := by
  rw [queue, List.length_append, stored_length]
  cases fifo.emptyN <;> rfl

theorem Holds.presents (holds : fifo.Holds count) : fifo.Presents (fifo.queue count) where
  shown some := by rw [queue_cons fifo count some, List.head?_cons]
  hidden empty := by
    have length := length_queue fifo count
    rw [empty, if_neg Bool.false_ne_true, Nat.zero_add] at length
    refine ⟨by rw [length]; exact holds.filled empty, fun some clock => ?_⟩
    have one : count ≠ 0 := fun zero => some (List.length_eq_zero_iff.mp (length.trans zero))
    exact holds.step_shown clock.iWr clock.iData (by simp [holds.wRead, empty, one])
  refused clock pushed refused := by
    have blocked : fifo.willOverflow = true ∧ clock.iRd = false := by
      simpa [takes, wWrite, pushed] using refused
    rw [length_queue, Nat.add_comm]
    exact ⟨by simp [oErr, pushed, blocked.1, blocked.2], holds.refusing blocked.1⟩

/-- A clock of the queue, with the word that is read at its head. -/
theorem conveys (places : 2 ≤ 2 ^ lg) : Conveys clock Legal takes gives
    fun (fifo : Fifo lg α) unread => ∃ count, fifo.Holds count ∧ unread = fifo.queue count := by
  rintro fifo clock unread ⟨count, holds, rfl⟩ legal
  refine ⟨_, ?_, _, holds.step places clock.iWr clock.iData clock.iRd, rfl⟩
  have queue := holds.step_queue clock.iWr clock.iData legal
  change (fifo.clock clock).queue _ = _ at queue
  rw [queue, ← List.append_assoc]
  congr 1
  cases asked : clock.iRd with
  | false => simp [gives, asked]
  | true =>
      rw [gives, asked, if_pos rfl, if_pos rfl, List.singleton_append]
      exact queue_cons fifo count (legal asked)

/-- From a reset, the words read are the words taken in, in their order; the
rest of them is presented. -/
theorem wbufifo_queues (some : 1 ≤ lg) (fifo : Fifo lg α) (start : Clock α) {clocks : List (Clock α)}
    (legal : Along clock Legal (fifo.afterReset start) clocks) :
    ∃ unread, observed clock takes (fifo.afterReset start) clocks =
        observed clock gives (fifo.afterReset start) clocks ++ unread ∧
      (clocked clock (fifo.afterReset start) clocks).Presents unread := by
  have places : 2 ≤ 2 ^ lg := by
    calc 2 = 2 ^ 1 := rfl
      _ ≤ 2 ^ lg := Nat.pow_le_pow_right (by decide) some
  have empty : (fifo.afterReset start).queue 0 = [] := rfl
  obtain ⟨unread, order, count, holds, rfl⟩ :=
    (conveys places).run ⟨0, afterReset_holds fifo start, rfl⟩ legal
  rw [empty, List.nil_append] at order
  exact ⟨_, order, holds.presents⟩

/-- Two places: a word comes in, is shown two clocks later and is read while the
next two come in. -/
def twoPlaces : Fifo 1 Nat := ⟨fun _ => 0, 0, 0, false, true, false, 0, false⟩

theorem two_places_queue :
    ∃ unread, observed clock takes (twoPlaces.afterReset ⟨false, 0, false⟩)
          [⟨true, 5, false⟩, ⟨false, 0, false⟩, ⟨true, 6, true⟩, ⟨true, 7, false⟩] =
        observed clock gives (twoPlaces.afterReset ⟨false, 0, false⟩)
          [⟨true, 5, false⟩, ⟨false, 0, false⟩, ⟨true, 6, true⟩, ⟨true, 7, false⟩] ++ unread ∧
      (clocked clock (twoPlaces.afterReset ⟨false, 0, false⟩)
        [⟨true, 5, false⟩, ⟨false, 0, false⟩, ⟨true, 6, true⟩, ⟨true, 7, false⟩]).Presents unread :=
  wbufifo_queues (Nat.le_refl 1) twoPlaces ⟨false, 0, false⟩ (by decide)

end Fifo

end ZipVersa.DebugBus
