import ZipVersa.Enet.CrcPackets

/-! Packets on their way from the transmit memory through all the stages, under
any pattern of the clock enable. -/

set_option autoImplicit false

namespace ZipVersa.Enet

open Lib

/-- A packet in the transmit memory and the settings it is sent with. -/
structure TxJob (aw : Nat) where
  txmem : BitVec aw → BitVec 32
  nTxLen : BitVec (aw + 2)
  configHwMac : Bool
  configHwCrc : Bool
  hwMac : BitVec 48

variable {aw : Nat}

namespace TxJob

/-- The memory is read from the high byte of a word down. -/
def byte (job : TxJob aw) (index : Nat) : Byte :=
  (job.txmem (BitVec.ofNat aw (index / 4))).extractLsb' (8 * (3 - index % 4)) 8

def bytes (job : TxJob aw) : List Byte := (List.range job.nTxLen.toNat).map job.byte

@[simp] theorem bytes_length (job : TxJob aw) : job.bytes.length = job.nTxLen.toNat := by
  simp [bytes]

theorem bytes_getElem? (job : TxJob aw) {index : Nat} (inside : index < job.nTxLen.toNat) :
    job.bytes[index]? = some (job.byte index) := by
  rw [bytes, List.getElem?_map, List.getElem?_range inside]
  rfl

/-- The memory and the settings stand still at this clock. -/
structure Holds (job : TxJob aw) (clock : TxClock aw) : Prop where
  iReset : clock.iReset = false
  txmem : clock.txmem = job.txmem
  configHwMac : clock.configHwMac = job.configHwMac
  configHwCrc : clock.configHwCrc = job.configHwCrc
  hwMac : clock.hwMac = job.hwMac

/-! What the stages hand on, from the state of the CRC register at the start. -/

def macs (job : TxJob aw) : List Byte := AddEMac.sends job.configHwMac job.hwMac job.bytes

def pads (job : TxJob aw) : List Byte := AddEPad.sends job.macs

def crcs (job : TxJob aw) (register : BitVec 32) : List Byte :=
  AddECrc.sends job.configHwCrc register job.pads

def wires (job : TxJob aw) (register : BitVec 32) : List Byte :=
  AddEPreamble.sends (job.crcs register)

theorem macs_length (job : TxJob aw) :
    job.macs.length = job.nTxLen.toNat + if job.configHwMac then 6 else 0 := by
  rw [macs, AddEMac.sends_length, bytes_length]

theorem pads_length (job : TxJob aw) : job.pads.length = max job.macs.length 60 :=
  AddEPad.sends_length _

theorem crcs_length (job : TxJob aw) (register : BitVec 32) :
    (job.crcs register).length = job.pads.length + if job.configHwCrc then 4 else 0 :=
  AddECrc.sends_length _ _ _

theorem wires_length (job : TxJob aw) (register : BitVec 32) :
    (job.wires register).length = (job.crcs register).length + 8 :=
  AddEPreamble.sends_length _

end TxJob

/-! ### Reading the memory -/

namespace TxeAddr

/-- Byte `index` of the packet is on offer. The word after it has been fetched
by the time it is needed. -/
structure Serving (job : TxJob aw) (index : Nat) (addr : TxeAddr aw) (data : BitVec 32) :
    Prop where
  inside : index < job.nTxLen.toNat
  oMemv : addr.oMemv = true
  startSignal : addr.startSignal = false
  rLen : addr.rLen.toNat = job.nTxLen.toNat
  lclAddr : addr.lclAddr.toNat = index + 1
  nextAddr : addr.nextAddr.toNat = index + 2
  dataReg : addr.dataReg = job.txmem (BitVec.ofNat aw (index / 4)) <<< (8 * (index % 4))
  fetched : (index + 1) % 4 = 0 → data = job.txmem (BitVec.ofNat aw ((index + 1) / 4))

variable {job : TxJob aw} {index : Nat} {addr : TxeAddr aw} {data : BitVec 32}

theorem oAddr_eq (addr : TxeAddr aw) : addr.oAddr = BitVec.ofNat aw (addr.nextAddr.toNat / 4) :=
  congrArg (BitVec.ofNat aw) (Nat.shiftRight_eq_div_pow _ 2)

theorem Serving.oMemd (serving : Serving job index addr data) : addr.oMemd = job.byte index := by
  have shift : ∀ (word : BitVec 32) (count : Nat), count < 4 →
      (word <<< (8 * count)).extractLsb' 24 8 = word.extractLsb' (8 * (3 - count)) 8 := by
    intro word count small
    apply BitVec.eq_of_getLsbD_eq
    intro place below
    have within : 24 + place < 32 := by omega
    have after : ¬ 24 + place < 8 * count := by omega
    have moved : 24 + place - 8 * count = 8 * (3 - count) + place := by omega
    simp only [BitVec.getLsbD_extractLsb', BitVec.getLsbD_shiftLeft, below, within, after, moved,
      decide_true, decide_false, Bool.not_false, Bool.true_and]
  rw [TxeAddr.oMemd, serving.dataReg, shift _ _ (Nat.mod_lt _ (by decide))]
  rfl

theorem Serving.offers (serving : Serving job index addr data) :
    carried addr.oMemv addr.oMemd = job.bytes[index]? := by
  rw [job.bytes_getElem? serving.inside, serving.oMemv, serving.oMemd]
  rfl

theorem Serving.wait (serving : Serving job index addr data) (start : Bool)
    (len : BitVec (aw + 2)) :
    Serving job index (addr.step false false start len data) (job.txmem addr.oAddr) where
  inside := serving.inside
  oMemv := by simp [TxeAddr.step, serving.oMemv, serving.startSignal]
  startSignal := by simp [TxeAddr.step, serving.oMemv]
  rLen := by simp [TxeAddr.step, serving.oMemv, serving.rLen]
  lclAddr := by simp [TxeAddr.step, serving.oMemv, serving.startSignal, serving.lclAddr]
  nextAddr := by simp [TxeAddr.step, serving.oMemv, serving.startSignal, serving.nextAddr]
  dataReg := by simp [TxeAddr.step, serving.oMemv, serving.dataReg]
  fetched word := by
    have same : (index + 2) / 4 = (index + 1) / 4 := by omega
    rw [oAddr_eq, serving.nextAddr, same]

private theorem toNat_add_small {width : Nat} {value : BitVec width} {number : Nat} (step : Nat)
    (is : value.toNat = number) (room : number + step < 2 ^ width) :
    (value + BitVec.ofNat width step).toNat = number + step := by
  rw [BitVec.toNat_add, is, BitVec.toNat_ofNat, Nat.mod_eq_of_lt (by omega : step < 2 ^ width),
    Nat.mod_eq_of_lt room]

theorem Serving.next (serving : Serving job index addr data)
    (more : index + 1 < job.nTxLen.toNat) (start : Bool) (len : BitVec (aw + 2)) :
    Serving job (index + 1) (addr.step false true start len data) (job.txmem addr.oAddr) := by
  have bound := job.nTxLen.isLt
  have double : 2 ^ (aw + 3) = 2 * 2 ^ (aw + 2) := Nat.pow_succ'
  have below : addr.lclAddr.ult addr.rLen = true := by
    rw [BitVec.ult_iff_toNat_lt, serving.lclAddr, serving.rLen]
    exact more
  refine ⟨more, ?_, ?_, ?_, ?_, ?_, ?_, ?_⟩
  · simp [TxeAddr.step, serving.oMemv, serving.startSignal, below]
  · simp [TxeAddr.step, serving.oMemv]
  · simp [TxeAddr.step, serving.oMemv, serving.rLen]
  · simp only [TxeAddr.step, serving.oMemv, serving.startSignal, Bool.false_eq_true, if_false,
      Bool.and_self, if_true]
    exact toNat_add_small 1 serving.lclAddr (by omega)
  · simp only [TxeAddr.step, serving.oMemv, serving.startSignal, Bool.false_eq_true, if_false,
      Bool.and_self, if_true]
    exact toNat_add_small 2 serving.lclAddr (by omega)
  · have low : addr.lclAddr.setWidth 2 = 0#2 ↔ (index + 1) % 4 = 0 := by
      rw [← BitVec.toNat_inj, BitVec.toNat_setWidth, serving.lclAddr]
      rfl
    simp only [TxeAddr.step, serving.oMemv, Bool.and_self, if_true, Bool.not_true, Bool.false_or]
    by_cases word : (index + 1) % 4 = 0
    · rw [beq_iff_eq.mpr (low.mpr word), if_pos rfl, serving.fetched word, word]
      simp
    · have same : (index + 1) / 4 = index / 4 := by omega
      have one : (index + 1) % 4 = index % 4 + 1 := by omega
      rw [beq_eq_false_iff_ne.mpr (mt low.mp word), if_neg Bool.false_ne_true, serving.dataReg,
        same, one, Nat.mul_succ, BitVec.shiftLeft_add]
  · intro _
    rw [oAddr_eq, serving.nextAddr]

theorem Serving.last (serving : Serving job index addr data)
    (end' : index + 1 = job.nTxLen.toNat) (start : Bool) (len : BitVec (aw + 2)) :
    (addr.step false true start len data).oMemv = false ∧
      (addr.step false true start len data).startSignal = false := by
  have stop : addr.lclAddr.ult addr.rLen = false := by
    rw [← Bool.not_eq_true, BitVec.ult_iff_toNat_lt, serving.lclAddr, serving.rLen]
    omega
  exact ⟨by simp [TxeAddr.step, serving.oMemv, serving.startSignal, stop],
    by simp [TxeAddr.step, serving.oMemv]⟩

end TxeAddr

namespace Transmitter

/-! ### The whole path -/

structure AtRest (hw : BitVec 48) (register : BitVec 32) (tx : Transmitter aw) : Prop where
  oMemv : tx.addr.oMemv = false
  startSignal : tx.addr.startSignal = false
  nextAddr : tx.addr.nextAddr = 1
  mac : tx.mac.Resting hw
  pad : tx.pad.oV = false
  crc : tx.crc.Resting register
  pre : tx.pre.oV = false

/-- The command has been seen; the first word of the packet is being fetched. -/
structure Starting (job : TxJob aw) (register : BitVec 32) (tx : Transmitter aw) : Prop where
  oMemv : tx.addr.oMemv = false
  startSignal : tx.addr.startSignal = true
  rLen : tx.addr.rLen.toNat = job.nTxLen.toNat
  nTxData : tx.nTxData = job.txmem 0
  mac : tx.mac.Resting job.hwMac
  pad : tx.pad.oV = false
  crc : tx.crc.Resting register
  pre : tx.pre.oV = false

/-- `time` enabled clocks after the first byte was put on offer. -/
structure Carrying (job : TxJob aw) (register : BitVec 32) (time : Nat) (tx : Transmitter aw) :
    Prop where
  serving : time < job.nTxLen.toNat → TxeAddr.Serving job time tx.addr tx.nTxData
  served : job.nTxLen.toNat ≤ time → tx.addr.oMemv = false ∧ tx.addr.startSignal = false
  nextAddr : job.nTxLen.toNat < time → tx.addr.nextAddr = 1
  mac : AddEMac.After job.configHwMac job.hwMac job.bytes time tx.mac
  pad : AddEPad.After job.macs (time - 1) tx.pad
  crc : AddECrc.After job.configHwCrc register job.pads (time - 2) tx.crc
  fresh : time = 0 → tx.pre.oV = false
  pre : 0 < time → AddEPreamble.After (job.crcs register) (time - 3) tx.pre

/-- A command is given again only while the last one is being read out. -/
def Patient : Transmitter aw → List (TxClock aw) → Prop
  | _, [] => True
  | tx, clock :: rest =>
      (clock.nTxCmd = true → tx.addr.oMemv = true ∨ tx.addr.startSignal = true) ∧
        Patient (tx.step clock) rest

/-- The clocks of one packet, from the one that takes the command. -/
structure Sends (tx : Transmitter aw) (job : TxJob aw) (first : TxClock aw)
    (rest : List (TxClock aw)) : Prop where
  nTxCmd : first.nTxCmd = true
  nTxLen : first.nTxLen = job.nTxLen
  accepted : TxeAddr.minPktSz ≤ job.nTxLen.toNat
  held : ∀ clock ∈ first :: rest, job.Holds clock
  patient : Patient (tx.step first) rest

/-- The states in which the next packet may be sent: after a reset, any clocks
without a command that is accepted, and whole packets with any settings. The
hardware address may change at an idle enabled clock. `register` is what the
packets so far have left in `addecrc`. -/
inductive Ready : BitVec 48 → BitVec 32 → Transmitter aw → Prop where
  | reset (tx : Transmitter aw) {clock : TxClock aw} : clock.iReset = true →
      Ready clock.hwMac 0xffffffff (tx.step clock)
  | idle {hw : BitVec 48} {register : BitVec 32} {tx : Transmitter aw} {clock : TxClock aw} :
      Ready hw register tx → clock.iReset = false →
      (clock.nTxCmd = true → clock.nTxLen.toNat < TxeAddr.minPktSz) →
      (clock.txCe = false → clock.hwMac = hw) →
      Ready clock.hwMac register (tx.step clock)
  | sent {register : BitVec 32} {tx : Transmitter aw} {job : TxJob aw} {first : TxClock aw}
      {rest : List (TxClock aw)} : Ready job.hwMac register tx → Sends tx job first rest →
      (clocked step tx (first :: rest)).quiet = true →
      Ready job.hwMac (AddECrc.leaves job.configHwCrc register job.pads)
        (clocked step tx (first :: rest))

variable {job : TxJob aw} {hw : BitVec 48} {register : BitVec 32} {time : Nat}
  {tx : Transmitter aw} {clock : TxClock aw}

private theorem addr_silent (silent : tx.addr.oMemv = false)
    (calm : tx.addr.startSignal = false) (noCmd : clock.nTxCmd = true →
      clock.nTxLen.toNat < TxeAddr.minPktSz) (run : clock.iReset = false) :
    (tx.step clock).addr.oMemv = false ∧ (tx.step clock).addr.startSignal = false ∧
      (tx.step clock).addr.nextAddr = 1 := by
  refine ⟨?_, ?_, ?_⟩
  · simp [step, TxeAddr.step, silent, calm, run]
  · cases cmd : clock.nTxCmd with
    | false => simp [step, TxeAddr.step, cmd]
    | true =>
        have short := noCmd cmd
        simp [step, TxeAddr.step, Nat.not_le_of_lt short]
  · simp [step, TxeAddr.step, silent, calm, run]

theorem AtRest.idle (rests : AtRest hw register tx) (run : clock.iReset = false)
    (noCmd : clock.nTxCmd = true → clock.nTxLen.toNat < TxeAddr.minPktSz)
    (steady : clock.txCe = false → clock.hwMac = hw) :
    AtRest clock.hwMac register (tx.step clock) := by
  obtain ⟨silent, calm, next⟩ := addr_silent rests.oMemv rests.startSignal noCmd run
  cases enabled : clock.txCe with
  | false =>
      have same := steady enabled
      refine ⟨silent, calm, next, ?_, ?_, ?_, ?_⟩ <;>
        simp only [step, run, enabled, AddEMac.step, AddEPad.step, AddECrc.step,
          AddEPreamble.step, Bool.false_eq_true, if_false]
      · rw [same]
        exact rests.mac
      · exact rests.pad
      · exact rests.crc
      · exact rests.pre
  | true =>
      refine ⟨silent, calm, next, ?_, ?_, ?_, ?_⟩ <;>
        simp only [step, run, enabled, rests.oMemv, rests.mac.oV, rests.pad, rests.crc.oV]
      · exact rests.mac.idle _ _ _
      · exact AddEPad.rests_idle rests.pad _
      · exact rests.crc.idle _ _
      · exact (AddEPreamble.rests_idle rests.pre _).oV

theorem AtRest.start (rests : AtRest job.hwMac register tx) (holds : job.Holds clock)
    (cmd : clock.nTxCmd = true) (len : clock.nTxLen = job.nTxLen)
    (accepted : TxeAddr.minPktSz ≤ job.nTxLen.toNat) :
    Starting job register (tx.step clock) := by
  have first : tx.addr.oAddr = 0 := by
    have one : (1 : BitVec (aw + 3)).toNat = 1 :=
      Nat.mod_eq_of_lt (Nat.one_lt_two_pow (by omega))
    rw [TxeAddr.oAddr_eq, rests.nextAddr, one]
    rfl
  -- The stages behind `txeaddr` see an idle clock.
  have idle : AtRest job.hwMac register
      (tx.step { clock with nTxCmd := false }) := by
    have rested := @AtRest.idle _ _ _ _ { clock with nTxCmd := false } rests holds.iReset
      (fun no => absurd no Bool.false_ne_true) (fun _ => holds.hwMac)
    exact holds.hwMac ▸ rested
  refine ⟨idle.oMemv, ?_, ?_, ?_, idle.mac, idle.pad, idle.crc, idle.pre⟩
  · simp [step, TxeAddr.step, holds.iReset, cmd, rests.oMemv, rests.startSignal, len, accepted]
  · have bound := job.nTxLen.isLt
    have double : 2 ^ (aw + 3) = 2 * 2 ^ (aw + 2) := Nat.pow_succ'
    simp only [step, TxeAddr.step, holds.iReset, cmd, rests.oMemv, rests.startSignal, len,
      Bool.false_eq_true, if_false, Bool.not_false, Bool.and_self, if_true]
    rw [BitVec.toNat_setWidth, Nat.mod_eq_of_lt (by omega)]
  · simp only [step, first, holds.txmem]

theorem Starting.carries (starting : Starting job register tx) (holds : job.Holds clock)
    (accepted : TxeAddr.minPktSz ≤ job.nTxLen.toNat) :
    Carrying job register 0 (tx.step clock) := by
  have some : 0 < job.nTxLen.toNat := Nat.lt_of_lt_of_le (by decide) accepted
  have macs : 0 < job.macs.length := by
    rw [job.macs_length]
    omega
  have pads : 0 < job.pads.length := by
    rw [job.pads_length]
    omega
  have small : ∀ value < 4, value % 2 ^ (aw + 3) = value := by
    intro value below
    have double : 2 ^ (aw + 3) = 4 * 2 ^ (aw + 1) := by rw [Nat.pow_add 2 (aw + 1) 2, Nat.mul_comm]
    have positive : 0 < 2 ^ (aw + 1) := Nat.two_pow_pos _
    exact Nat.mod_eq_of_lt (by omega)
  have rests : ∀ idle : Transmitter aw, idle.mac.Resting job.hwMac → idle.pad.oV = false →
      idle.crc.Resting register →
      AddEMac.After job.configHwMac job.hwMac job.bytes 0 idle.mac ∧
        AddEPad.After job.macs 0 idle.pad ∧
        AddECrc.After job.configHwCrc register job.pads 0 idle.crc := fun idle mac pad crc =>
    ⟨mac.after _ _, AddEPad.rests_after pad _, crc.after _ pads⟩
  have idle : (tx.step clock).mac.Resting job.hwMac ∧ (tx.step clock).pad.oV = false ∧
      (tx.step clock).crc.Resting register ∧ (tx.step clock).pre.oV = false := by
    cases enabled : clock.txCe with
    | false =>
        simp only [step, holds.iReset, enabled, AddEMac.step, AddEPad.step, AddECrc.step,
          AddEPreamble.step, Bool.false_eq_true, if_false]
        exact ⟨starting.mac, starting.pad, starting.crc, starting.pre⟩
    | true =>
        simp only [step, holds.iReset, enabled, starting.oMemv, starting.mac.oV, starting.pad,
          starting.crc.oV, holds.hwMac]
        exact ⟨starting.mac.idle _ _ _, AddEPad.rests_idle starting.pad _,
          starting.crc.idle _ _, (AddEPreamble.rests_idle starting.pre _).oV⟩
  obtain ⟨mac, pad, crc, pre⟩ := idle
  obtain ⟨macAfter, padAfter, crcAfter⟩ := rests _ mac pad crc
  refine ⟨fun _ => ⟨some, ?_, ?_, ?_, ?_, ?_, ?_, fun word => absurd word (by decide)⟩,
    fun none => absurd none (by omega), fun none => absurd none (by omega), macAfter, padAfter,
    crcAfter, fun _ => pre, fun now => absurd now (by omega)⟩
  · simp [step, TxeAddr.step, holds.iReset, starting.startSignal]
  · simp [step, TxeAddr.step, starting.startSignal]
  · simp [step, TxeAddr.step, holds.iReset, starting.startSignal, starting.rLen]
  · simp [step, TxeAddr.step, holds.iReset, starting.startSignal, small]
  · simp [step, TxeAddr.step, holds.iReset, starting.startSignal, small]
  · simp [step, TxeAddr.step, starting.oMemv, starting.nTxData]

theorem Carrying.offers (carrying : Carrying job register time tx) :
    carried tx.addr.oMemv tx.addr.oMemd = job.bytes[time]? := by
  by_cases inside : time < job.nTxLen.toNat
  · exact (carrying.serving inside).offers
  · rw [(carrying.served (by omega)).1, List.getElem?_eq_none (by simp; omega)]
    rfl

theorem Carrying.macOutput (carrying : Carrying job register time tx) :
    carried tx.mac.oV tx.mac.oByte = shown job.macs time := carrying.mac.output

theorem Carrying.preOutput (carrying : Carrying job register time tx) :
    carried tx.pre.oV tx.pre.oD = shown (job.wires register) (time - 3) := by
  cases time with
  | zero =>
      rw [carrying.fresh rfl]
      rfl
  | succ time => exact (carrying.pre (by omega)).output

/-- Once every byte has been fetched the fetch is at rest. -/
theorem Carrying.silent (carrying : Carrying job register time tx) (holds : job.Holds clock)
    (patient : clock.nTxCmd = true → tx.addr.oMemv = true ∨ tx.addr.startSignal = true)
    (sent : job.nTxLen.toNat ≤ time) :
    (tx.step clock).addr.oMemv = false ∧ (tx.step clock).addr.startSignal = false ∧
      (tx.step clock).addr.nextAddr = 1 := by
  obtain ⟨quiet, calm⟩ := carrying.served sent
  refine addr_silent quiet calm (fun cmd => ?_) holds.iReset
  rcases patient cmd with reading | starting
  · exact absurd reading (by simp [quiet])
  · exact absurd starting (by simp [calm])

/-- Nothing moves at a clock that is not enabled, but for the fetch. -/
theorem Carrying.wait (carrying : Carrying job register time tx) (holds : job.Holds clock)
    (disabled : clock.txCe = false)
    (patient : clock.nTxCmd = true → tx.addr.oMemv = true ∨ tx.addr.startSignal = true) :
    Carrying job register time (tx.step clock) := by
  have still : (tx.step clock).mac = tx.mac ∧ (tx.step clock).pad = tx.pad ∧
      (tx.step clock).crc = tx.crc ∧ (tx.step clock).pre = tx.pre := by
    simp [step, holds.iReset, disabled, AddEMac.step, AddEPad.step, AddECrc.step,
      AddEPreamble.step]
  obtain ⟨mac, pad, crc, pre⟩ := still
  have silent := carrying.silent holds patient
  refine ⟨?_, fun sent => ⟨(silent sent).1, (silent sent).2.1⟩,
    fun sent => (silent (by omega)).2.2, ?_, ?_, ?_, ?_, ?_⟩
  · intro inside
    have waits := (carrying.serving inside).wait clock.nTxCmd clock.nTxLen
    simpa only [step, holds.iReset, disabled, holds.txmem] using waits
  · rw [mac]
    exact carrying.mac
  · rw [pad]
    exact carrying.pad
  · rw [crc]
    exact carrying.crc
  · rw [pre]
    exact carrying.fresh
  · rw [pre]
    exact carrying.pre

private theorem Carrying.addr_step (carrying : Carrying job register time tx)
    (holds : job.Holds clock) (enabled : clock.txCe = true)
    (patient : clock.nTxCmd = true → tx.addr.oMemv = true ∨ tx.addr.startSignal = true) :
    (time + 1 < job.nTxLen.toNat →
        TxeAddr.Serving job (time + 1) (tx.step clock).addr (tx.step clock).nTxData) ∧
      (job.nTxLen.toNat ≤ time + 1 → (tx.step clock).addr.oMemv = false ∧
        (tx.step clock).addr.startSignal = false) ∧
      (job.nTxLen.toNat < time + 1 → (tx.step clock).addr.nextAddr = 1) := by
  have silent := carrying.silent holds patient
  refine ⟨?_, ?_, fun sent => (silent (by omega)).2.2⟩
  · intro more
    have moves := (carrying.serving (by omega)).next more clock.nTxCmd clock.nTxLen
    simpa only [step, holds.iReset, enabled, holds.txmem] using moves
  · intro sent
    by_cases last : time + 1 = job.nTxLen.toNat
    · have stops := (carrying.serving (by omega)).last last clock.nTxCmd clock.nTxLen
      simpa only [step, holds.iReset, enabled] using stops
    · have ended := silent (by omega)
      exact ⟨ended.1, ended.2.1⟩

theorem Carrying.step (carrying : Carrying job register time tx) (holds : job.Holds clock)
    (accepted : TxeAddr.minPktSz ≤ job.nTxLen.toNat) (enabled : clock.txCe = true)
    (patient : clock.nTxCmd = true → tx.addr.oMemv = true ∨ tx.addr.startSignal = true) :
    Carrying job register (time + 1) (tx.step clock) := by
  have eight : 8 ≤ job.nTxLen.toNat := accepted
  have macs := job.macs_length
  have pads := job.pads_length
  have crcs := job.crcs_length register
  obtain ⟨serving, served, next⟩ := carrying.addr_step holds enabled patient
  have long : (if job.configHwMac then 6 else 1) ≤ job.bytes.length := by
    rw [job.bytes_length]
    split <;> omega
  refine ⟨serving, served, next, ?_, ?_, ?_, fun now => absurd now (by omega), fun _ => ?_⟩ <;>
    simp only [Transmitter.step, holds.iReset, enabled, holds.configHwMac, holds.configHwCrc,
      holds.hwMac]
  · exact carrying.mac.step carrying.offers long
  · exact carrying.pad.follow carrying.mac.output (by omega)
  · exact carrying.crc.follow carrying.pad.output (by omega)
  · have input := carrying.crc.output
    cases time with
    | zero =>
        rw [carried_eq_none input]
        exact (AddEPreamble.rests_idle (carrying.fresh rfl) _).after _
    | succ time => exact (carrying.pre (by omega)).follow input (by omega)

theorem Carrying.run {clocks : List (TxClock aw)} (carrying : Carrying job register time tx)
    (accepted : TxeAddr.minPktSz ≤ job.nTxLen.toNat) (held : ∀ clock ∈ clocks, job.Holds clock)
    (patient : Patient tx clocks) :
    Carrying job register (time + clocks.countP TxClock.txCe)
        (clocked Transmitter.step tx clocks) ∧
      observed Transmitter.step macOut tx clocks =
        (List.range' time (clocks.countP TxClock.txCe)).map (shown job.macs) ∧
      observed Transmitter.step preOut tx clocks =
        (List.range' time (clocks.countP TxClock.txCe)).map
          fun time => shown (job.wires register) (time - 3) := by
  induction clocks generalizing tx time with
  | nil => exact ⟨carrying, rfl, rfl⟩
  | cons clock rest ih =>
      obtain ⟨now, later⟩ := patient
      have holds := held clock (.head _)
      have others : ∀ other ∈ rest, job.Holds other := fun other member =>
        held other (.tail _ member)
      cases enabled : clock.txCe with
      | false =>
          obtain ⟨last, macs, wires⟩ := ih (carrying.wait holds enabled now) others later
          rw [List.countP_cons_of_neg (by simp [enabled])]
          exact ⟨last, by simp [observed, macOut, enabled, macs],
            by simp [observed, preOut, enabled, wires]⟩
      | true =>
          obtain ⟨last, macs, wires⟩ := ih (carrying.step holds accepted enabled now) others later
          rw [List.countP_cons_of_pos (by simp [enabled])]
          refine ⟨?_, ?_, ?_⟩
          · rw [Nat.add_comm (rest.countP _) 1, ← Nat.add_assoc]
            exact last
          · rw [observed, macs, List.range'_succ, List.map_cons, ← carrying.macOutput]
            simp [macOut, enabled]
          · rw [observed, wires, List.range'_succ, List.map_cons, ← carrying.preOutput]
            simp [preOut, enabled]

/-- Silence means that the last byte has left. -/
theorem Carrying.past (carrying : Carrying job register time tx)
    (accepted : TxeAddr.minPktSz ≤ job.nTxLen.toNat) (quiet : tx.quiet = true) :
    (job.wires register).length < time - 3 := by
  have eight : 8 ≤ job.nTxLen.toNat := accepted
  simp only [Transmitter.quiet, Bool.and_eq_true, Bool.not_eq_true'] at quiet
  obtain ⟨⟨⟨⟨⟨silent, _⟩, _⟩, _⟩, _⟩, ended⟩ := quiet
  have read : job.nTxLen.toNat ≤ time := by
    refine Nat.le_of_not_lt fun inside => ?_
    have reading := (carrying.serving inside).oMemv
    rw [silent] at reading
    cases reading
  refine Nat.lt_of_not_le fun inside => ?_
  have up := output_up carrying.preOutput (by omega) inside
  rw [ended] at up
  cases up

theorem Carrying.quiet (carrying : Carrying job register time tx)
    (past : (job.wires register).length < time - 3) : tx.quiet = true := by
  have macs := job.macs_length
  have pads := job.pads_length
  have crcs := job.crcs_length register
  have wires := job.wires_length register
  obtain ⟨silent, calm⟩ := carrying.served (by omega)
  have mac : tx.mac.oV = false :=
    carried_eq_none (carrying.macOutput.trans (shown_none (by omega)))
  have pad : tx.pad.oV = false :=
    carried_eq_none (carrying.pad.output.trans (shown_none (by rw [← TxJob.pads]; omega)))
  have crc : tx.crc.oV = false :=
    carried_eq_none (carrying.crc.output.trans (shown_none (by rw [← TxJob.crcs]; omega)))
  have pre : tx.pre.oV = false := carried_eq_none (carrying.preOutput.trans (shown_none past))
  simp [Transmitter.quiet, silent, calm, mac, pad, crc, pre]

theorem Carrying.rests (carrying : Carrying job register time tx)
    (past : (job.wires register).length < time - 3) :
    AtRest job.hwMac (AddECrc.leaves job.configHwCrc register job.pads) tx := by
  have macs := job.macs_length
  have pads := job.pads_length
  have crcs := job.crcs_length register
  have wires := job.wires_length register
  obtain ⟨silent, calm⟩ := carrying.served (by omega)
  refine ⟨silent, calm, carrying.nextAddr (by omega), carrying.mac.done ?_, carrying.pad.done ?_,
    carrying.crc.done ?_, ?_⟩
  · rw [← TxJob.macs]
    omega
  · rw [← TxJob.pads]
    omega
  · rw [← TxJob.crcs]
    omega
  · exact carried_eq_none (carrying.preOutput.trans (shown_none past))

/-! ### What leaves -/

/-- The bytes leave in one burst of enabled clocks. -/
def Burst (output : List (Option Byte)) (bytes : List Byte) : Prop :=
  ∃ before after, output =
    List.replicate before none ++ bytes.map some ++ List.replicate after none

private theorem burst_unique {output : List (Option Byte)} {left right : List Byte}
    (one : Burst output left) (other : Burst output right) : left = right := by
  obtain ⟨_, _, rfl⟩ := one
  obtain ⟨_, _, same⟩ := other
  have bytes := congrArg List.reduceOption same
  rwa [reduceOption_burst, reduceOption_burst] at bytes

private theorem burst_iff {output : List (Option Byte)} {bytes other : List Byte}
    (burst : Burst output bytes) : Burst output other ↔ bytes = other :=
  ⟨fun also => burst_unique burst also, fun same => same ▸ burst⟩

private theorem burst_behind {lead : List (Option Byte)} {packet : List Byte} {count lag : Nat}
    (silent : ∀ lane ∈ lead, lane = none) (enough : packet.length < count - lag) :
    Burst (lead ++ (List.range' 0 count).map fun time => shown packet (time - lag)) packet := by
  have split : (List.range' 0 count).map (fun time => shown packet (time - lag)) =
      List.replicate lag none ++ (List.range' 0 (count - lag)).map (shown packet) := by
    have parts : count = lag + (count - lag) := by omega
    conv_lhs => rw [parts, ← List.range'_append_1, List.map_append]
    congr 1
    · rw [List.eq_replicate_iff]
      refine ⟨by simp, fun lane member => ?_⟩
      obtain ⟨time, among, rfl⟩ := List.mem_map.mp member
      have before : time - lag = 0 := by
        have bound := (List.mem_range'_1.mp among).2
        omega
      rw [before]
      rfl
    · apply List.ext_getElem (by simp)
      intro index _ _
      simp
  have quiet : lead = List.replicate lead.length none := List.eq_replicate_iff.mpr ⟨rfl, silent⟩
  refine ⟨lead.length + lag + 1, count - lag - packet.length - 1, ?_⟩
  have front : List.replicate (lead.length + lag + 1) (none : Option Byte) =
      lead ++ List.replicate lag none ++ [none] := by
    rw [List.replicate_succ', List.replicate_add, ← quiet]
  rw [split, shown_eq enough, front]
  simp only [List.append_assoc, List.cons_append, List.nil_append]

theorem Ready.rests (ready : Ready hw register tx) : AtRest hw register tx := by
  induction ready with
  | @reset tx clock reset =>
      have mac : (tx.step clock).mac.Resting clock.hwMac := by
        simp only [Transmitter.step, reset]
        exact AddEMac.Resting.reset _ _ _ _ _ _
      have crc : (tx.step clock).crc.Resting 0xffffffff := by
        simp only [Transmitter.step, reset]
        exact ⟨rfl, rfl⟩
      refine ⟨?_, ?_, ?_, mac, ?_, crc, ?_⟩
      · simp [Transmitter.step, TxeAddr.step, reset]
      · simp [Transmitter.step, TxeAddr.step, reset]
      · simp [Transmitter.step, TxeAddr.step, reset]
      · simp [Transmitter.step, AddEPad.step, reset]
      · simp [Transmitter.step, AddEPreamble.step, reset]
  | idle _ run noCmd steady ih => exact ih.idle run noCmd steady
  | @sent register tx job first rest _ sends quiet ih =>
      cases rest with
      | nil =>
          have starting := ih.start (sends.held first (.head _)) sends.nTxCmd sends.nTxLen
            sends.accepted
          rw [clocked_cons, clocked_nil, Transmitter.quiet, starting.startSignal] at quiet
          simp at quiet
      | cons second rest =>
          have starting := ih.start (sends.held first (.head _)) sends.nTxCmd sends.nTxLen
            sends.accepted
          have carrying := starting.carries (sends.held second (.tail _ (.head _))) sends.accepted
          obtain ⟨last, _, _⟩ := carrying.run sends.accepted
            (fun clock member => sends.held clock (.tail _ (.tail _ member))) sends.patient.2
          exact last.rests (last.past sends.accepted quiet)

/-- A packet sent from a state that is ready: it does leave, and when it has left,
what left is what the stages make of it. -/
theorem Ready.leaves {first : TxClock aw} {rest : List (TxClock aw)}
    (ready : Ready job.hwMac register tx) (sends : Sends tx job first rest) :
    ((job.wires register).length + 4 < rest.countP TxClock.txCe →
        (clocked Transmitter.step tx (first :: rest)).quiet = true) ∧
      ((clocked Transmitter.step tx (first :: rest)).quiet = true →
        Burst (observed Transmitter.step macOut tx (first :: rest)) job.macs ∧
        Burst (observed Transmitter.step preOut tx (first :: rest)) (job.wires register)) := by
  have macs := job.macs_length
  have pads := job.pads_length
  have crcs := job.crcs_length register
  have wires := job.wires_length register
  have rested := ready.rests
  have starting := rested.start (sends.held first (.head _)) sends.nTxCmd sends.nTxLen
    sends.accepted
  cases rest with
  | nil =>
      refine ⟨fun enough => absurd enough (by simp), fun quiet => ?_⟩
      rw [clocked_cons, clocked_nil, Transmitter.quiet, starting.startSignal] at quiet
      simp at quiet
  | cons second rest =>
      have carrying := starting.carries (sends.held second (.tail _ (.head _))) sends.accepted
      obtain ⟨last, macOuts, preOuts⟩ := carrying.run sends.accepted
        (fun clock member => sends.held clock (.tail _ (.tail _ member))) sends.patient.2
      rw [Nat.zero_add] at last
      rw [clocked_cons, clocked_cons, observed, observed, observed, observed, macOuts, preOuts,
        ← List.append_assoc, ← List.append_assoc]
      refine ⟨fun enough => last.quiet ?_, fun quiet => ?_⟩
      · have most : (second :: rest).countP TxClock.txCe ≤ rest.countP TxClock.txCe + 1 := by
          rw [List.countP_cons]
          split <;> omega
        omega
      · have past := last.past sends.accepted quiet
        constructor
        · refine @burst_behind _ _ _ 0 ?_ (by omega)
          intro lane member
          rcases List.mem_append.mp member with one | two
          · have idle : lane = carried tx.mac.oV tx.mac.oByte := by
              unfold macOut at one
              split at one
              · exact List.mem_singleton.mp one
              · cases one
            rw [idle, rested.mac.oV]
            rfl
          · have idle : lane = carried (tx.step first).mac.oV (tx.step first).mac.oByte := by
              unfold macOut at two
              split at two
              · exact List.mem_singleton.mp two
              · cases two
            rw [idle, starting.mac.oV]
            rfl
        · refine burst_behind ?_ past
          intro lane member
          rcases List.mem_append.mp member with one | two
          · have idle : lane = carried tx.pre.oV tx.pre.oD := by
              unfold preOut at one
              split at one
              · exact List.mem_singleton.mp one
              · cases one
            rw [idle, rested.pre]
            rfl
          · have idle : lane = carried (tx.step first).pre.oV (tx.step first).pre.oD := by
              unfold preOut at two
              split at two
              · exact List.mem_singleton.mp two
              · cases two
            rw [idle, starting.pre]
            rfl

end Transmitter

namespace TxJob

/-! ### The frame on the wire -/

/-- The packet with the hardware address behind its sixth byte. -/
def addressed (job : TxJob aw) : List Byte :=
  job.bytes.take 6 ++ (List.range 6).map (AddEMac.macByte job.hwMac) ++ job.bytes.drop 6

/-- Zeros up to the shortest frame, less its check. -/
def padded (job : TxJob aw) : List Byte :=
  job.addressed ++ List.replicate (60 - job.addressed.length) 0

def wireFormat (job : TxJob aw) : List Byte :=
  List.replicate 7 0x55 ++ [0xd5] ++ job.padded ++ crc32Bytes job.padded

variable {job : TxJob aw} {register : BitVec 32}

theorem macs_eq_addressed_iff (enabled : job.configHwMac = true) :
    job.macs = job.addressed ↔ ∀ index < 6, job.nTxLen.toNat < 6 + index →
      AddEMac.macByte job.hwMac index = AddEMac.macByte job.hwMac 0 := by
  rw [macs, addressed, AddEMac.sends, enabled, if_pos rfl, List.append_left_inj,
    List.append_right_inj, AddEMac.inserted, List.map_inj_left, bytes_length]
  constructor
  · intro same index inside short
    have octets := same index (List.mem_range.mpr inside)
    rw [if_neg (by omega)] at octets
    exact octets.symm
  · intro same index among
    split
    case isTrue => rfl
    case isFalse late => exact (same index (List.mem_range.mp among) (by omega)).symm

theorem wires_eq_wireFormat_iff (macEnabled : job.configHwMac = true)
    (crcEnabled : job.configHwCrc = true) (long : 12 ≤ job.nTxLen.toNat) :
    job.wires register = job.wireFormat ↔ register = 0xffffffff := by
  have whole : job.macs = job.addressed :=
    (macs_eq_addressed_iff macEnabled).mpr fun index inside short => by omega
  have filled : job.pads = job.padded := by rw [pads, whole, padded, AddEPad.sends, AddEPad.minOctets]
  have check : AddECrc.sends true register job.padded = job.padded ++ crc32Bytes job.padded ↔
      (true = true → register = 0xffffffff) := AddECrc.sends_eq_law_iff ⟨true, job.padded⟩
  rw [eq_self, true_imp_iff] at check
  rw [wires, crcs, filled, crcEnabled, wireFormat, AddEPreamble.sends, AddEPreamble.preamble,
    List.append_assoc, List.append_assoc, List.append_assoc, List.append_right_inj,
    List.append_right_inj, check]

end TxJob

namespace Transmitter

variable {job : TxJob aw} {register : BitVec 32} {tx : Transmitter aw} {first : TxClock aw}
  {rest : List (TxClock aw)}

/-- From any state a packet may be sent from, a packet with the hardware address
enabled does leave `addemac`, and leaves it with the address put in whole if and
only if every octet of the address that is due after the end of the packet's own
bytes equals the first one. -/
theorem addemac_inserts_iff (ready : Ready job.hwMac register tx) (sends : Sends tx job first rest)
    (enabled : job.configHwMac = true) :
    ((job.wires register).length + 4 < rest.countP TxClock.txCe →
        (clocked step tx (first :: rest)).quiet = true) ∧
      ((clocked step tx (first :: rest)).quiet = true →
        (Burst (observed step macOut tx (first :: rest)) job.addressed ↔
          ∀ index < 6, job.nTxLen.toNat < 6 + index →
            AddEMac.macByte job.hwMac index = AddEMac.macByte job.hwMac 0)) := by
  obtain ⟨leaves, output⟩ := ready.leaves sends
  refine ⟨leaves, fun quiet => ?_⟩
  rw [burst_iff (output quiet).1, TxJob.macs_eq_addressed_iff enabled]

/-- A packet with address and check enabled leaves in wire format if and only if
the packets before it left the CRC register at its starting value. -/
theorem transmit_wire_iff (ready : Ready job.hwMac register tx) (sends : Sends tx job first rest)
    (long : 12 ≤ job.nTxLen.toNat) (macEnabled : job.configHwMac = true)
    (crcEnabled : job.configHwCrc = true) :
    ((job.wires register).length + 4 < rest.countP TxClock.txCe →
        (clocked step tx (first :: rest)).quiet = true) ∧
      ((clocked step tx (first :: rest)).quiet = true →
        (Burst (observed step preOut tx (first :: rest)) job.wireFormat ↔
          register = 0xffffffff)) := by
  obtain ⟨leaves, output⟩ := ready.leaves sends
  refine ⟨leaves, fun quiet => ?_⟩
  rw [burst_iff (output quiet).2, TxJob.wires_eq_wireFormat_iff macEnabled crcEnabled long]

end Transmitter

/-! ### Packets at full speed -/

def TxJob.clock (job : TxJob aw) (nTxCmd : Bool) : TxClock aw where
  iReset := false
  txCe := true
  nTxCmd := nTxCmd
  nTxLen := job.nTxLen
  configHwMac := job.configHwMac
  configHwCrc := job.configHwCrc
  hwMac := job.hwMac
  txmem := job.txmem

theorem TxJob.sends (job : TxJob aw) (accepted : TxeAddr.minPktSz ≤ job.nTxLen.toNat) (count : Nat)
    (tx : Transmitter aw) :
    Transmitter.Sends tx job (job.clock true) (List.replicate count (job.clock false)) where
  nTxCmd := rfl
  nTxLen := rfl
  accepted := accepted
  held := by
    intro clock member
    rcases List.mem_cons.mp member with rfl | later
    · exact ⟨rfl, rfl, rfl, rfl, rfl⟩
    · rw [List.eq_of_mem_replicate later]
      exact ⟨rfl, rfl, rfl, rfl, rfl⟩
  patient := by
    generalize tx.step (job.clock true) = state
    induction count generalizing state with
    | zero => trivial
    | succ count ih => exact ⟨fun cmd => absurd cmd Bool.false_ne_true, ih _⟩

namespace Transmitter

/-- A packet of `nTxLen` zeros. -/
def zeros (nTxLen : BitVec 6) (configHwCrc : Bool) : TxJob 4 :=
  ⟨fun _ => 0, nTxLen, true, configHwCrc, 0x010203040506⟩

/-- The transmitter after a clock of reset. -/
def afterReset : Transmitter 4 :=
  let blank : Transmitter 4 :=
    { addr := ⟨false, false, 0, 0, 1, 0⟩
      nTxData := 0
      mac := ⟨0, fun _ => ⟨false, 0⟩, 0, false, 0⟩
      pad := ⟨0, false, 0⟩
      crc := AddECrc.init
      pre := ⟨AddEPreamble.preset true, false, 0⟩ }
  blank.step { (zeros 0 true).clock false with iReset := true }

theorem afterReset_ready : Ready 0x010203040506 0xffffffff afterReset :=
  @Ready.reset _ _ { (zeros 0 true).clock false with iReset := true } rfl

private theorem zeros_leave {register : BitVec 32} {tx : Transmitter 4} (nTxLen : BitVec 6)
    (configHwCrc : Bool) (ready : Ready 0x010203040506 register tx)
    (accepted : TxeAddr.minPktSz ≤ nTxLen.toNat) :
    (clocked step tx ((zeros nTxLen configHwCrc).clock true ::
      List.replicate 100 ((zeros nTxLen configHwCrc).clock false))).quiet = true := by
  have sends := (zeros nTxLen configHwCrc).sends accepted 100 tx
  refine (Ready.leaves ready sends).1 ?_
  have bound : (zeros nTxLen configHwCrc).nTxLen.toNat < 64 := nTxLen.isLt
  have macs := (zeros nTxLen configHwCrc).macs_length
  have pads := (zeros nTxLen configHwCrc).pads_length
  have crcs := (zeros nTxLen configHwCrc).crcs_length register
  have wires := (zeros nTxLen configHwCrc).wires_length register
  have enabled : (List.replicate 100 ((zeros nTxLen configHwCrc).clock false)).countP
      TxClock.txCe = 100 := by
    rw [List.countP_replicate]
    rfl
  rw [enabled]
  split at macs <;> split at crcs <;> omega

theorem eleven_bytes_addressed :
    Burst (observed step macOut afterReset ((zeros 11 true).clock true ::
      List.replicate 100 ((zeros 11 true).clock false))) (zeros 11 true).addressed :=
  ((addemac_inserts_iff afterReset_ready ((zeros 11 true).sends (by decide) 100 _) rfl).2
    (zeros_leave 11 true afterReset_ready (by decide))).mpr (by decide)

/-- The shortest packet is sent with the first octet of the address three times
too often. -/
theorem eight_bytes_misaddressed :
    Ready 0x010203040506 0xffffffff afterReset ∧
      Sends afterReset (zeros 8 true) ((zeros 8 true).clock true)
        (List.replicate 100 ((zeros 8 true).clock false)) ∧
      (clocked step afterReset ((zeros 8 true).clock true ::
        List.replicate 100 ((zeros 8 true).clock false))).quiet = true ∧
      ¬ Burst (observed step macOut afterReset ((zeros 8 true).clock true ::
        List.replicate 100 ((zeros 8 true).clock false))) (zeros 8 true).addressed := by
  have ready := afterReset_ready
  have sends : Sends afterReset (zeros 8 true) _ _ :=
    (zeros 8 true).sends (by decide) 100 _
  have quiet := zeros_leave 8 true ready (by decide)
  refine ⟨ready, sends, quiet, ?_⟩
  rw [burst_iff ((ready.leaves sends).2 quiet).1, TxJob.macs_eq_addressed_iff rfl]
  decide

theorem twelve_bytes_on_wire :
    Burst (observed step preOut afterReset ((zeros 12 true).clock true ::
      List.replicate 100 ((zeros 12 true).clock false))) (zeros 12 true).wireFormat :=
  ((transmit_wire_iff afterReset_ready ((zeros 12 true).sends (by decide) 100 _) (by decide) rfl rfl).2
    (zeros_leave 12 true afterReset_ready (by decide))).mpr rfl

/-- The state after a packet sent without a check. -/
def afterPlain : Transmitter 4 :=
  clocked step afterReset ((zeros 12 false).clock true ::
    List.replicate 100 ((zeros 12 false).clock false))

/-- The next packet goes out with a wrong check. -/
theorem wire_spoilt_by_plain_packet :
    ∃ register, Ready 0x010203040506 register afterPlain ∧
      Sends afterPlain (zeros 12 true) ((zeros 12 true).clock true)
        (List.replicate 100 ((zeros 12 true).clock false)) ∧
      (clocked step afterPlain ((zeros 12 true).clock true ::
        List.replicate 100 ((zeros 12 true).clock false))).quiet = true ∧
      ¬ Burst (observed step preOut afterPlain ((zeros 12 true).clock true ::
        List.replicate 100 ((zeros 12 true).clock false))) (zeros 12 true).wireFormat := by
  have first := (zeros 12 false).sends (by decide) 100 afterReset
  have ready : Ready (zeros 12 true).hwMac
      (AddECrc.leaves false 0xffffffff (zeros 12 false).pads) afterPlain := by
    rw [afterPlain]
    exact @Ready.sent _ _ _ (zeros 12 false) _ _ afterReset_ready first
      (zeros_leave 12 false afterReset_ready (by decide))
  have sends : Sends afterPlain (zeros 12 true) _ _ := (zeros 12 true).sends (by decide) 100 _
  have quiet := zeros_leave 12 true ready (by decide)
  refine ⟨_, ready, sends, quiet, ?_⟩
  rw [burst_iff ((ready.leaves sends).2 quiet).2,
    TxJob.wires_eq_wireFormat_iff rfl rfl (by decide)]
  decide +kernel

end Transmitter

end ZipVersa.Enet
