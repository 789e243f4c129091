import Mathlib.Tactic.Common
import ZipVersa.Lib.Clocked

/-! `ecpnetdly` steps the `DELAYF` elements of the RGMII pins and counts the
steps. The elements are those of its formal section: one tap for each clock with
`ck_stb` and `dly_move`, unless the limit flag is set. -/

set_option autoImplicit false

namespace ZipVersa.Enet

open Lib

inductive Direction where
  | up
  | down
  deriving DecidableEq, Repr

/-- `f_pin_delay` and `f_delay_max`. -/
structure Delays (np nbits : Nat) where
  pinDelay : Fin np → BitVec nbits
  delayMax : BitVec nbits

namespace Delays

variable {np nbits : Nat}

def dlyCflag (delays : Delays np nbits) (direction : Direction) (pin : Fin np) : Bool :=
  match direction with
  | .down => delays.pinDelay pin == 0
  | .up => delays.pinDelay pin == delays.delayMax

/-- One clock of the elements. -/
def step (delays : Delays np nbits) (move : Bool) (direction : Direction) : Delays np nbits :=
  { delays with
    pinDelay := fun pin =>
      if move && !delays.dlyCflag direction pin then
        (match direction with
        | .down => delays.pinDelay pin - 1
        | .up => delays.pinDelay pin + 1)
      else delays.pinDelay pin }

/-- `&dly_cflag`. -/
def all (delays : Delays np nbits) (direction : Direction) : Bool :=
  decide (∀ pin, delays.dlyCflag direction pin = true)

/-- `dly_cflag == 0`. -/
def none (delays : Delays np nbits) (direction : Direction) : Bool :=
  decide (∀ pin, delays.dlyCflag direction pin = false)

end Delays

structure NetDlyClock (nbits : Nat) where
  iReset : Bool
  iCommandedDelay : BitVec nbits

/-- The registers of `ecpnetdly`, and the elements behind them. -/
structure EcpNetDly (np nbits ckdiv : Nat) where
  delays : Delays np nbits
  currentDelay : BitVec nbits
  clockDivider : BitVec ckdiv
  ckStb : Bool
  rSyncd : Bool
  dlyMove : Bool
  dlyDirection : Direction
  maxedOut : Bool
  rInitialReset : Bool
  sameDelay : Bool

namespace EcpNetDly

variable {np nbits ckdiv : Nat}

/-- Power-up, with the elements at any tap. -/
def init (delays : Delays np nbits) : EcpNetDly np nbits ckdiv where
  delays := delays
  currentDelay := 0
  clockDivider := 1
  ckStb := false
  rSyncd := false
  dlyMove := false
  dlyDirection := .down
  maxedOut := false
  rInitialReset := true
  sameDelay := true

/-- `current_delay` on a clock that moves the elements. -/
def counted (dly : EcpNetDly np nbits ckdiv) : BitVec nbits :=
  match dly.dlyDirection with
  | .down => if dly.currentDelay ≠ 0 then dly.currentDelay - 1 else 0
  | .up =>
      if dly.delays.none .up ∧ dly.currentDelay ≠ BitVec.allOnes nbits then dly.currentDelay + 1
      else dly.currentDelay

/-- `dly_move` when no move ends. -/
def begins (dly : EcpNetDly np nbits ckdiv) : Bool :=
  if !dly.rSyncd then true
  else if dly.sameDelay then false
  else
    match dly.dlyDirection with
    | .down => decide (dly.currentDelay ≠ 0) || !dly.delays.all .down
    | .up => dly.delays.none .up && !dly.maxedOut

def step (dly : EcpNetDly np nbits ckdiv) (clock : NetDlyClock nbits) :
    EcpNetDly np nbits ckdiv where
  delays := dly.delays.step (dly.ckStb && dly.dlyMove) dly.dlyDirection
  currentDelay :=
    if clock.iReset || !dly.rSyncd then 0
    else if dly.ckStb && dly.dlyMove then dly.counted
    else dly.currentDelay
  clockDivider := dly.clockDivider + 1
  ckStb := dly.clockDivider == BitVec.allOnes ckdiv
  rSyncd :=
    if clock.iReset || dly.rInitialReset then false
    else dly.rSyncd || (dly.dlyDirection == .down && dly.dlyMove && dly.delays.all .down)
  dlyMove := if dly.ckStb then !dly.dlyMove && dly.begins else dly.dlyMove
  dlyDirection :=
    if !dly.ckStb && !dly.dlyMove then
      (if clock.iReset || !dly.rSyncd then .down
      else if clock.iCommandedDelay < dly.currentDelay then .down
      else .up)
    else dly.dlyDirection
  maxedOut :=
    if dly.dlyMove then dly.dlyDirection == .up && !dly.delays.none .up else dly.maxedOut
  rInitialReset :=
    if clock.iReset then true
    else dly.rInitialReset && (dly.ckStb || dly.dlyMove)
  sameDelay :=
    if !dly.ckStb && !dly.dlyMove then dly.currentDelay == clock.iCommandedDelay
    else dly.sameDelay

variable {dly : EcpNetDly np nbits ckdiv}

/-- The count beside the taps. -/
structure Tracks (dly : EcpNetDly np nbits ckdiv) : Prop where
  taps : dly.rSyncd = true → ∀ pin, dly.delays.pinDelay pin = dly.currentDelay
  within : dly.currentDelay ≤ dly.delays.delayMax
  unsyncd : dly.rSyncd = false → dly.currentDelay = 0
  initialReset : dly.rInitialReset = true → dly.rSyncd = false

theorem init_tracks (delays : Delays np nbits) :
    Tracks (init delays : EcpNetDly np nbits ckdiv) where
  taps synced := nomatch synced
  within := Nat.zero_le _
  unsyncd _ := rfl
  initialReset _ := rfl

/-- With the taps equal the elements have all reached a limit or none has. -/
theorem Tracks.flag (tracks : Tracks dly) (synced : dly.rSyncd = true) (direction : Direction)
    (pin : Fin np) : dly.delays.dlyCflag direction pin =
      match direction with
      | .down => dly.currentDelay == 0
      | .up => dly.currentDelay == dly.delays.delayMax := by
  cases direction <;> simp [Delays.dlyCflag, tracks.taps synced pin]

theorem Tracks.none_up (tracks : Tracks dly) (synced : dly.rSyncd = true) (some : 0 < np) :
    dly.delays.none .up = !(dly.currentDelay == dly.delays.delayMax) := by
  have flag := tracks.flag synced .up
  rw [Delays.none]
  cases limit : dly.currentDelay == dly.delays.delayMax with
  | true =>
      refine decide_eq_false fun never => ?_
      have first := never ⟨0, some⟩
      rw [flag ⟨0, some⟩, limit] at first
      cases first
  | false => exact decide_eq_true fun pin => (flag pin).trans limit

theorem sub_one_le {value limit : BitVec nbits} (within : value ≤ limit) (positive : value ≠ 0) :
    value - 1 ≤ limit := by
  have some : value.toNat ≠ 0 := fun zero => positive (BitVec.eq_of_toNat_eq zero)
  have wide : 0 < nbits := by
    rcases Nat.eq_zero_or_pos nbits with rfl | wide
    · exact absurd (BitVec.eq_nil value) positive
    · exact wide
  have one : (1 : BitVec nbits).toNat = 1 := BitVec.toNat_one wide
  have below : (1 : BitVec nbits) ≤ value := by
    rw [BitVec.le_def, one]
    omega
  rw [BitVec.le_def] at within ⊢
  rw [BitVec.toNat_sub_of_le below]
  omega

theorem add_one_le {value limit : BitVec nbits} (within : value ≤ limit) (apart : value ≠ limit) :
    value ≠ BitVec.allOnes nbits ∧ value + 1 ≤ limit := by
  have less : value.toNat < limit.toNat :=
    Nat.lt_of_le_of_ne within fun same => apart (BitVec.eq_of_toNat_eq same)
  have bound := limit.isLt
  have one : (1 : BitVec nbits).toNat ≤ 1 := Nat.mod_le 1 _
  constructor
  · rintro rfl
    rw [BitVec.toNat_allOnes] at less
    omega
  · rw [BitVec.le_def, BitVec.toNat_add]
    have small := Nat.mod_le (value.toNat + (1 : BitVec nbits).toNat) (2 ^ nbits)
    omega

/-- A move of synchronised elements is a move of the count. -/
theorem Tracks.moved (tracks : Tracks dly) (synced : dly.rSyncd = true) (some : 0 < np) :
    (∀ pin, (dly.delays.step true dly.dlyDirection).pinDelay pin = dly.counted) ∧
      dly.counted ≤ dly.delays.delayMax := by
  have taps := tracks.taps synced
  have within := tracks.within
  have none := tracks.none_up synced some
  have flag := tracks.flag synced
  cases direction : dly.dlyDirection with
  | down =>
      cases zero : dly.currentDelay == 0 with
      | true =>
          rw [beq_iff_eq] at zero
          have stays : dly.counted = 0 := by simp only [counted, direction, zero, ne_eq,
            not_true_eq_false, if_false]
          rw [stays]
          refine ⟨fun pin => ?_, Nat.zero_le _⟩
          simp only [Delays.step, flag .down pin, taps pin, zero, beq_self_eq_true, Bool.not_true,
            Bool.and_false, Bool.false_eq_true, if_false]
      | false =>
          have positive := beq_eq_false_iff_ne.mp zero
          have lower : dly.counted = dly.currentDelay - 1 := by
            simp only [counted, direction, positive, ne_eq, not_false_eq_true, if_true]
          rw [lower]
          refine ⟨fun pin => ?_, sub_one_le within positive⟩
          simp only [Delays.step, flag .down pin, taps pin, zero, Bool.not_false, Bool.and_true,
            if_true]
  | up =>
      cases limit : dly.currentDelay == dly.delays.delayMax with
      | true =>
          rw [limit] at none
          have stays : dly.counted = dly.currentDelay := by
            simp only [counted, direction, none, Bool.not_true, Bool.false_eq_true, false_and,
              if_false]
          rw [stays]
          refine ⟨fun pin => ?_, within⟩
          simp only [Delays.step, flag .up pin, taps pin, limit, Bool.not_true, Bool.and_false,
            Bool.false_eq_true, if_false]
      | false =>
          obtain ⟨room, higher⟩ := add_one_le within (beq_eq_false_iff_ne.mp limit)
          rw [limit] at none
          have above : dly.counted = dly.currentDelay + 1 := by
            simp only [counted, direction, none, Bool.not_false, room, ne_eq, not_false_eq_true,
              and_self, if_true]
          rw [above]
          refine ⟨fun pin => ?_, higher⟩
          simp only [Delays.step, flag .up pin, taps pin, limit, Bool.not_false, Bool.and_true,
            if_true]

/-- Elements found at the bottom stay there while the count starts. -/
theorem bottomed (down : dly.dlyDirection = .down) (all : dly.delays.all .down = true)
    (move : Bool) (pin : Fin np) : (dly.delays.step move dly.dlyDirection).pinDelay pin = 0 := by
  have zero := of_decide_eq_true all pin
  rw [down, Delays.step]
  simp only [zero, Bool.not_true, Bool.and_false, Bool.false_eq_true, if_false]
  exact beq_iff_eq.mp zero

theorem Tracks.step (tracks : Tracks dly) (some : 0 < np) (clock : NetDlyClock nbits) :
    Tracks (dly.step clock) := by
  have moved := tracks.moved
  -- out of reset, synchronised elements step as the count does
  have steps : dly.rSyncd = true → clock.iReset = false →
      (∀ pin, (dly.step clock).delays.pinDelay pin = (dly.step clock).currentDelay) ∧
        (dly.step clock).currentDelay ≤ dly.delays.delayMax := by
    intro synced running
    obtain ⟨pins, within⟩ := moved synced some
    simp only [EcpNetDly.step, synced, running, Bool.not_true, Bool.or_false, Bool.false_eq_true,
      if_false]
    cases moving : dly.ckStb && dly.dlyMove with
    | true => exact ⟨pins, within⟩
    | false => exact ⟨tracks.taps synced, tracks.within⟩
  have rests : clock.iReset = true ∨ dly.rSyncd = false → (dly.step clock).currentDelay = 0 := by
    intro rests
    exact if_pos (by rcases rests with reset | unsynced <;> simp [*])
  have syncing : (dly.step clock).rSyncd = true → clock.iReset = false ∧
      (dly.rSyncd = true ∨ dly.dlyDirection = .down ∧ dly.delays.all .down = true) := by
    intro synced
    simp only [EcpNetDly.step] at synced
    grind
  constructor
  · intro synced pin
    obtain ⟨running, before⟩ := syncing synced
    cases already : dly.rSyncd with
    | true => exact (steps already running).1 pin
    | false =>
        rcases before with before | ⟨down, all⟩
        · exact nomatch already.symm.trans before
        · rw [rests (.inr already)]
          exact bottomed down all _ pin
  · cases running : clock.iReset with
    | true => exact rests (.inl running) ▸ Nat.zero_le _
    | false =>
        cases synced : dly.rSyncd with
        | true => exact (steps synced running).2
        | false => exact rests (.inr synced) ▸ Nat.zero_le _
  · intro unsynced
    refine rests ?_
    simp only [EcpNetDly.step] at unsynced
    have initial := tracks.initialReset
    grind
  · intro initial
    have before := tracks.initialReset
    simp only [EcpNetDly.step] at initial ⊢
    grind

/-- The direction of a move is settled before it begins. -/
theorem direction_held (clock : NetDlyClock nbits)
    (moving : dly.dlyMove = true ∨ (dly.step clock).dlyMove = true) :
    (dly.step clock).dlyDirection = dly.dlyDirection := by
  simp only [step] at moving ⊢
  grind

theorem delayMax_run (dly : EcpNetDly np nbits ckdiv) (clocks : List (NetDlyClock nbits)) :
    (clocked step dly clocks).delays.delayMax = dly.delays.delayMax := by
  induction clocks generalizing dly with
  | nil => rfl
  | cons clock rest ih => exact ih (dly.step clock)

/-- For pins that start at any taps, whatever is commanded and whenever the circuit
is reset. -/
theorem delays_tracked (some : 0 < np) (delays : Delays np nbits)
    (clocks : List (NetDlyClock nbits)) (clock : NetDlyClock nbits) :
    let dly : EcpNetDly np nbits ckdiv := clocked step (init delays) clocks
    (dly.rSyncd = true → ∀ pin, dly.delays.pinDelay pin = dly.currentDelay) ∧
      dly.currentDelay ≤ delays.delayMax ∧
      (dly.dlyMove = true ∨ (dly.step clock).dlyMove = true →
        (dly.step clock).dlyDirection = dly.dlyDirection) := by
  intro dly
  have tracks : Tracks dly :=
    clocked_invariant (fun _ input _ before => before.step some input) (init_tracks delays)
  have same : dly.delays.delayMax = delays.delayMax := delayMax_run (init delays) clocks
  exact ⟨tracks.taps, same ▸ tracks.within, direction_held clock⟩

/-- Five pins, taken to the bottom and then on their way up to tap three. -/
theorem five_pins_tracked :
    let dly : EcpNetDly 5 16 1 :=
      clocked step (init ⟨fun pin => BitVec.ofNat 16 (pin.val / 4), 127⟩)
        (List.replicate 18 ⟨false, 3⟩)
    dly.currentDelay = 2 ∧ (∀ pin, dly.delays.pinDelay pin = dly.currentDelay) ∧
      dly.currentDelay ≤ 127 ∧
      (dly.step ⟨false, 0⟩).dlyDirection = dly.dlyDirection := by
  obtain ⟨taps, within, held⟩ := @delays_tracked 5 16 1 (by decide)
    ⟨fun pin => BitVec.ofNat 16 (pin.val / 4), 127⟩ (List.replicate 18 ⟨false, 3⟩) ⟨false, 0⟩
  exact ⟨by decide, taps (by decide), within, held (by decide)⟩

end EcpNetDly

end ZipVersa.Enet
