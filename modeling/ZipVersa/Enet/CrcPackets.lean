import ZipVersa.Enet.TxStages
import ZipVersa.Lib.Clocked
import Mathlib.Data.List.ReduceOption

/-! Packet after packet through `addecrc`, each with its own `i_en`. The CRC
register is also the shift register the check leaves by, and only a check that
is sent shifts it back to its starting value. -/

set_option autoImplicit false

namespace ZipVersa.Enet

open Lib

/-- The wires into `addecrc` at a clock out of reset. -/
structure CrcClock where
  iCe : Bool
  iEn : Bool
  iV : Bool
  iD : Byte
  deriving DecidableEq, Repr

structure CrcPacket where
  iEn : Bool
  bytes : List Byte
  deriving DecidableEq, Repr

namespace AddECrc

def clock (crc : AddECrc) (clock : CrcClock) : AddECrc :=
  crc.step false clock.iCe clock.iEn clock.iV clock.iD

/-- What the next stage takes at a clock. -/
def out (crc : AddECrc) (clock : CrcClock) : List (Option Byte) :=
  if clock.iCe then [carried crc.oV crc.oD] else []

/-- The output while each of several lists of clocks passes. -/
def outputs : AddECrc → List (List CrcClock) → List (List (Option Byte))
  | _, [] => []
  | crc, clocks :: rest => observed clock out crc clocks :: outputs (clocked clock crc clocks) rest

end AddECrc

namespace CrcPacket

/-- The clocks of a packet: at the enabled ones its bytes and then silence until
the output has ended, `i_en` held. What the wires carry at the other clocks does
not matter. -/
structure Fed (packet : CrcPacket) (clocks : List CrcClock) : Prop where
  some : packet.bytes ≠ []
  held : ∀ clock ∈ clocks, clock.iCe = true → clock.iEn = packet.iEn
  wires : ∃ gap, (if packet.iEn then 5 else 1) ≤ gap ∧
    (clocks.filter CrcClock.iCe).map (fun clock => carried clock.iV clock.iD) =
      packet.bytes.map Option.some ++ List.replicate gap none

/-- What should leave: the packet, and with `i_en` the IEEE check of it alone. -/
def law (packet : CrcPacket) : List Byte :=
  packet.bytes ++ if packet.iEn then crc32Bytes packet.bytes else []

/-- It leaves as one burst. -/
def Lawful (packet : CrcPacket) (output : List (Option Byte)) : Prop :=
  ∃ gap, output = none :: packet.law.map Option.some ++ List.replicate gap none

/-- Every packet with `i_en` finds the register at its starting value. -/
def Clean (register : BitVec 32) : List CrcPacket → Prop
  | [] => True
  | packet :: rest =>
      (packet.iEn = true → register = 0xffffffff) ∧
        Clean (AddECrc.leaves packet.iEn register packet.bytes) rest

instance decidableClean : (register : BitVec 32) → (packets : List CrcPacket) →
    Decidable (Clean register packets)
  | _, [] => inferInstanceAs (Decidable True)
  | register, packet :: rest =>
      @instDecidableAnd _ _ inferInstance
        (decidableClean (AddECrc.leaves packet.iEn register packet.bytes) rest)

/-- A packet at full speed. -/
def spelled (packet : CrcPacket) (gap : Nat) : List CrcClock :=
  packet.bytes.map (fun byte => ⟨true, packet.iEn, true, byte⟩) ++
    List.replicate gap ⟨true, packet.iEn, false, 0⟩

theorem spelled_fed {packet : CrcPacket} {gap : Nat} (some : packet.bytes ≠ [])
    (enough : (if packet.iEn then 5 else 1) ≤ gap) : packet.Fed (packet.spelled gap) where
  some := some
  held := by
    intro clock member _
    rcases List.mem_append.mp member with byte | idle
    · obtain ⟨_, _, rfl⟩ := List.mem_map.mp byte
      rfl
    · rw [List.eq_of_mem_replicate idle]
  wires := by
    refine ⟨gap, enough, ?_⟩
    have enabled : (packet.spelled gap).filter CrcClock.iCe = packet.spelled gap := by
      rw [List.filter_eq_self]
      intro clock member
      rcases List.mem_append.mp member with byte | idle
      · obtain ⟨_, _, rfl⟩ := List.mem_map.mp byte
        rfl
      · rw [List.eq_of_mem_replicate idle]
    rw [enabled, spelled, List.map_append, List.map_map, List.map_replicate]
    rfl

end CrcPacket

/-- The bytes of a burst. -/
theorem reduceOption_burst (before after : Nat) (bytes : List Byte) :
    (List.replicate before none ++ bytes.map some ++ List.replicate after none).reduceOption =
      bytes := by
  have all : (bytes.map some).reduceOption = bytes := by
    induction bytes with
    | nil => rfl
    | cons byte rest ih => rw [List.map_cons, List.reduceOption_cons_of_some, ih]
  rw [List.reduceOption_append, List.reduceOption_append, List.reduceOption_replicate_none,
    List.reduceOption_replicate_none, all, List.nil_append, List.append_nil]

namespace AddECrc

variable {en : Bool} {register : BitVec 32} {bytes : List Byte} {crc : AddECrc} {time : Nat}

theorem clock_disabled (crc : AddECrc) {clock : CrcClock} (disabled : clock.iCe = false) :
    crc.clock clock = crc := by
  simp [AddECrc.clock, AddECrc.step, disabled]

theorem After.run {clocks : List CrcClock} {count : Nat} (after : After en register bytes time crc)
    (some : 0 < bytes.length) (held : ∀ clock ∈ clocks, clock.iCe = true → clock.iEn = en)
    (wires : (clocks.filter CrcClock.iCe).map (fun clock => carried clock.iV clock.iD) =
      (List.range' time count).map fun time => bytes[time]?) :
    After en register bytes (time + count) (clocked clock crc clocks) ∧
      observed clock out crc clocks =
        (List.range' time count).map (shown (sends en register bytes)) := by
  induction clocks generalizing crc time count with
  | nil =>
      cases count with
      | zero => exact ⟨after, rfl⟩
      | succ count => cases wires
  | cons first rest ih =>
      have later : ∀ clock ∈ rest, clock.iCe = true → clock.iEn = en := fun clock member =>
        held clock (.tail _ member)
      cases enabled : first.iCe with
      | false =>
          rw [List.filter_cons_of_neg (by simp [enabled])] at wires
          obtain ⟨last, output⟩ := ih after later wires
          rw [clocked_cons, observed, clock_disabled crc enabled]
          exact ⟨last, by simp [out, enabled, output]⟩
      | true =>
          rw [List.filter_cons_of_pos (by simp [enabled]), List.map_cons] at wires
          cases count with
          | zero => cases wires
          | succ count =>
              rw [List.range'_succ, List.map_cons] at wires
              obtain ⟨input, others⟩ := List.cons.inj wires
              have stepped : crc.clock first = crc.step false true en first.iV first.iD := by
                rw [AddECrc.clock, enabled, held first (.head _) enabled]
              have moved := after.step input some
              rw [← stepped] at moved
              obtain ⟨last, output⟩ := ih moved later others
              refine ⟨?_, ?_⟩
              · rw [Nat.add_comm count 1, ← Nat.add_assoc]
                exact last
              · rw [observed, output, List.range'_succ, List.map_cons, ← after.output]
                simp [out, enabled]

/-- One packet from a resting circuit. -/
theorem Resting.packet {packet : CrcPacket} {clocks : List CrcClock} (resting : crc.Resting register)
    (fed : packet.Fed clocks) :
    (clocked clock crc clocks).Resting (leaves packet.iEn register packet.bytes) ∧
      ∃ gap, observed clock out crc clocks =
        none :: (sends packet.iEn register packet.bytes).map some ++ List.replicate gap none := by
  obtain ⟨gap, enough, wires⟩ := fed.wires
  have some : 0 < packet.bytes.length := List.length_pos_iff.mpr fed.some
  rw [offered_eq] at wires
  obtain ⟨last, output⟩ := (resting.after packet.iEn some).run some fed.held wires
  have size : (sends packet.iEn register packet.bytes).length < packet.bytes.length + gap := by
    rw [sends_length]
    cases able : packet.iEn with
    | false =>
        rw [able] at enough
        exact Nat.add_lt_add_left enough _
    | true =>
        rw [able] at enough
        exact Nat.add_lt_add_left (Nat.lt_of_lt_of_le (by decide) enough) _
  rw [Nat.zero_add] at last
  exact ⟨last.done size, _, output.trans (shown_eq size)⟩

/-- Four octets name a word. -/
theorem word_of_octets {left right : BitVec 32}
    (same : (List.range 4).map (octet left) = (List.range 4).map (octet right)) :
    left = right := by
  have three : octet left 3 = octet right 3 := congrArg (fun list => list.getD 3 0) same
  have two : octet left 2 = octet right 2 := congrArg (fun list => list.getD 2 0) same
  have one : octet left 1 = octet right 1 := congrArg (fun list => list.getD 1 0) same
  have zero : octet left 0 = octet right 0 := congrArg (fun list => list.getD 0 0) same
  rw [← be32_octets left, ← be32_octets right, three, two, one, zero]

/-- A check is right only from the starting value. -/
theorem sends_eq_law_iff (packet : CrcPacket) :
    sends packet.iEn register packet.bytes = packet.law ↔
      (packet.iEn = true → register = 0xffffffff) := by
  rw [sends, CrcPacket.law, List.append_right_inj]
  cases packet.iEn with
  | false => simp
  | true =>
      simp only [if_true, true_imp_iff]
      constructor
      · intro same
        have checks := word_of_octets same
        rw [crc32, ← checked_eq] at checks
        exact checked_injective packet.bytes (BitVec.not_inj.mp checks)
      · rintro rfl
        rw [crc32Bytes, crc32, ← checked_eq]

private theorem burst_inj {left right : List Byte} {gap other : Nat}
    (same : none :: left.map some ++ List.replicate gap none =
      none :: right.map some ++ List.replicate other none) : left = right := by
  have bytes := congrArg List.reduceOption same
  exact (reduceOption_burst 1 gap left).symm.trans (bytes.trans (reduceOption_burst 1 other right))

theorem lawful_iff {packet : CrcPacket} {output : List (Option Byte)}
    (sent : ∃ gap, output =
      none :: (sends packet.iEn register packet.bytes).map some ++ List.replicate gap none) :
    packet.Lawful output ↔ (packet.iEn = true → register = 0xffffffff) := by
  obtain ⟨gap, rfl⟩ := sent
  rw [← sends_eq_law_iff]
  constructor
  · rintro ⟨other, same⟩
    exact burst_inj same
  · intro same
    exact ⟨gap, by rw [same]⟩

theorem Resting.outputs_iff {packets : List CrcPacket} {windows : List (List CrcClock)}
    (resting : crc.Resting register) (fed : List.Forall₂ CrcPacket.Fed packets windows) :
    List.Forall₂ CrcPacket.Lawful packets (crc.outputs windows) ↔
      CrcPacket.Clean register packets := by
  induction fed generalizing crc register with
  | nil => exact ⟨fun _ => trivial, fun _ => .nil⟩
  | @cons packet clocks packets windows one _ ih =>
      obtain ⟨rests, sent⟩ := resting.packet one
      rw [AddECrc.outputs, List.forall₂_cons, ih rests, lawful_iff sent, CrcPacket.Clean]

/-- From reset, every packet leaves as its law says if and only if every packet
with `i_en` finds the register at its starting value. -/
theorem addecrc_lawful_iff {packets : List CrcPacket} {windows : List (List CrcClock)}
    (fed : List.Forall₂ CrcPacket.Fed packets windows) :
    List.Forall₂ CrcPacket.Lawful packets (init.outputs windows) ↔
      CrcPacket.Clean 0xffffffff packets :=
  Resting.outputs_iff ⟨rfl, rfl⟩ fed

theorem checked_packets_lawful :
    List.Forall₂ CrcPacket.Lawful [⟨true, [0x31, 0x32]⟩, ⟨true, [0x33]⟩, ⟨false, [0x34]⟩]
      (init.outputs [CrcPacket.spelled ⟨true, [0x31, 0x32]⟩ 5, CrcPacket.spelled ⟨true, [0x33]⟩ 7,
        CrcPacket.spelled ⟨false, [0x34]⟩ 1]) :=
  (addecrc_lawful_iff (.cons (CrcPacket.spelled_fed (by decide) (by decide))
    (.cons (CrcPacket.spelled_fed (by decide) (by decide))
      (.cons (CrcPacket.spelled_fed (by decide) (by decide)) .nil)))).mpr (by decide +kernel)

/-- A packet without a check spoils the check of the next one. -/
theorem plain_packet_spoils_check :
    List.Forall₂ CrcPacket.Fed [⟨false, [0x31]⟩, ⟨true, [0x32]⟩]
        [CrcPacket.spelled ⟨false, [0x31]⟩ 12, CrcPacket.spelled ⟨true, [0x32]⟩ 12] ∧
      ¬ List.Forall₂ CrcPacket.Lawful [⟨false, [0x31]⟩, ⟨true, [0x32]⟩]
        (init.outputs [CrcPacket.spelled ⟨false, [0x31]⟩ 12,
          CrcPacket.spelled ⟨true, [0x32]⟩ 12]) := by
  have fed : List.Forall₂ CrcPacket.Fed [⟨false, [0x31]⟩, ⟨true, [0x32]⟩]
      [CrcPacket.spelled ⟨false, [0x31]⟩ 12, CrcPacket.spelled ⟨true, [0x32]⟩ 12] :=
    .cons (CrcPacket.spelled_fed (by decide) (by decide))
      (.cons (CrcPacket.spelled_fed (by decide) (by decide)) .nil)
  refine ⟨fed, ?_⟩
  rw [Resting.outputs_iff ⟨rfl, rfl⟩ fed]
  decide +kernel

end AddECrc

end ZipVersa.Enet
