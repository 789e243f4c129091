import ZipVersa.Board.TfrValue
import ZipVersa.Enet.TxeSpeed

/-! The transmit side of `enetpackets` whole: the control register on the bus
clock, the command, the cancellation and the speed carried over to the clock of
the PHY, `n_tx_busy`, the stages and `txespeed` behind them. -/

set_option autoImplicit false

namespace ZipVersa.Enet

open Lib Board

/-- The wires of the bus at an edge of `i_wb_clk`; `MAW` is `aw`. -/
structure TxWires (aw : Nat) where
  iWbStb : Bool
  iWbWe : Bool
  iWbAddr : BitVec (aw + 2)
  iWbData : BitVec 32
  iWbSel : BitVec 4
  deriving DecidableEq, Repr

/-- The registers of `i_wb_clk`. -/
structure TxBus (aw : Nat) where
  wrCtrl : Bool
  wrAddr : BitVec 3
  wrData : BitVec 32
  wrSel : BitVec 4
  txLen : BitVec (aw + 2)
  txCmd : Bool
  txCancel : Bool
  txBusy : Bool
  rTxBusy : Bool
  preCmd : Bool
  txNzeroCmd : Bool
  configHwCrc : Bool
  configHwMac : Bool
  oNetResetN : Bool
  txSpd : BitVec 2
  hwMac : BitVec 48
  deriving DecidableEq, Repr

namespace TxBus

variable {aw : Nat}

/-- The register `addr` is being written, in the byte lane `lane`. -/
def writes (bus : TxBus aw) (addr : BitVec 3) (lane : Nat) : Bool :=
  bus.wrCtrl && bus.wrAddr == addr && bus.wrSel.getLsbD lane

/-- A byte of the hardware address behind a write to `addr`. -/
def macLane (bus : TxBus aw) (addr : BitVec 3) (lane place : Nat) : Byte :=
  if bus.writes addr lane then bus.wrData.extractLsb' (8 * lane) 8
  else bus.hwMac.extractLsb' (8 * place) 8

def step (bus : TxBus aw) (wires : TxWires aw) (nStillBusy : Bool) : TxBus aw where
  wrCtrl := wires.iWbStb && wires.iWbWe && wires.iWbAddr.extractLsb' aw 2 == 0
  wrAddr := wires.iWbAddr.extractLsb' 0 3
  wrData := wires.iWbData
  wrSel := wires.iWbSel
  txLen :=
    if bus.writes 1 1 && bus.writes 1 0 && !bus.txCmd && !bus.txBusy then
      bus.wrData.setWidth (aw + 2)
    else bus.txLen
  txCmd :=
    if !bus.oNetResetN then false
    else if bus.txNzeroCmd then true
    else if bus.txBusy || bus.txCancel then false
    else bus.txCmd
  txCancel :=
    if !bus.oNetResetN then true
    else if bus.writes 1 1 then bus.txBusy && !bus.wrData.getLsbD 14
    else if !bus.txBusy then false
    else bus.txCancel
  txBusy := bus.rTxBusy
  rTxBusy := nStillBusy
  preCmd := bus.writes 1 1 && bus.wrData.getLsbD 14
  txNzeroCmd := bus.preCmd && bus.txLen != 0
  configHwCrc := if bus.writes 1 1 then !bus.wrData.getLsbD 15 else bus.configHwCrc
  configHwMac := if bus.writes 1 2 then !bus.wrData.getLsbD 16 else bus.configHwMac
  oNetResetN := if bus.writes 1 2 then !bus.wrData.getLsbD 17 else bus.oNetResetN
  txSpd :=
    if bus.writes 1 3 && bus.wrData.getLsbD 24 then bus.wrData.extractLsb' 30 2 else bus.txSpd
  hwMac :=
    bus.macLane 2 1 5 ++ bus.macLane 2 0 4 ++ bus.macLane 3 3 3 ++ bus.macLane 3 2 2 ++
      bus.macLane 3 1 1 ++ bus.macLane 3 0 0

end TxBus

/-- The registers of `i_net_tx_clk`. -/
structure TxNet (aw : Nat) where
  qTxReset : BitVec 2
  nTxCmd : Bool
  rTxCmd : Bool
  nTxCancel : Bool
  rTxCancel : Bool
  nTxBusy : Bool
  nTxConfigHwMac : Bool
  nTxConfigHwCrc : Bool
  nTxLen : BitVec (aw + 2)
  stages : Transmitter aw
  speed : TxeSpeed
  nStillBusy : Bool

namespace TxNet

variable {aw : Nat}

def nTxReset (net : TxNet aw) : Bool := net.qTxReset.getLsbD 1

/-- What resets the stages. -/
def halted (net : TxNet aw) : Bool := net.nTxReset || net.nTxCancel

/-- The stages at an edge, with the transmit memory as it then is. -/
def stagesClock (net : TxNet aw) (bus : TxBus aw) (txmem : BitVec aw → BitVec 32) : TxClock aw where
  iReset := net.halted
  txCe := net.speed.oCe
  nTxCmd := net.nTxCmd
  nTxLen := net.nTxLen
  configHwMac := net.nTxConfigHwMac
  configHwCrc := net.nTxConfigHwCrc
  hwMac := bus.hwMac
  txmem := txmem

def speedClock (net : TxNet aw) (nTxSpd : BitVec 2) : TxeSpeed.Clock where
  iReset := net.nTxReset
  iSpd := nTxSpd
  iV := net.stages.pre.oV
  iD := net.stages.pre.oD

def step (net : TxNet aw) (bus : TxBus aw) (nTxSpd : BitVec 2) (txmem : BitVec aw → BitVec 32) :
    TxNet aw where
  qTxReset := net.qTxReset <<< 1
  nTxCmd := net.rTxCmd
  rTxCmd := bus.txCmd
  nTxCancel := net.rTxCancel
  rTxCancel := bus.txCancel
  nTxBusy :=
    if net.halted then false
    else if !net.nTxBusy then net.nTxCmd
    else if net.speed.oCe && net.speed.oV && !net.stages.pre.oV then false
    else true
  nTxConfigHwMac := if !net.nTxBusy then bus.configHwMac else net.nTxConfigHwMac
  nTxConfigHwCrc := if !net.nTxBusy then bus.configHwCrc else net.nTxConfigHwCrc
  nTxLen := if !net.nTxBusy then bus.txLen else net.nTxLen
  stages := net.stages.step (net.stagesClock bus txmem)
  speed := net.speed.step (net.speedClock nTxSpd)
  nStillBusy :=
    net.nTxBusy || net.speed.oV || net.stages.crc.oV || net.stages.mac.oV || net.stages.pad.oV

end TxNet

/-- Rising edges at one instant, with what is on the wires there, and `i_reset`,
which needs no clock. -/
structure TxEdge (aw : Nat) where
  iReset : Bool
  bus : Option (TxWires aw)
  net : Option (BitVec aw → BitVec 32)

structure TxSide (aw : Nat) where
  bus : TxBus aw
  /-- `tfrtxspd`. -/
  spd : TfrValue 2
  net : TxNet aw

namespace TxSide

variable {aw : Nat}

def busEdge (side : TxSide aw) (edge : TxEdge aw) : TxBus aw :=
  match edge.bus with
  | some wires => side.bus.step wires side.net.nStillBusy
  | none => side.bus

def netEdge (side : TxSide aw) (edge : TxEdge aw) : TxNet aw :=
  match edge.net with
  | some txmem => side.net.step side.bus side.spd.rValue txmem
  | none => side.net

def step (side : TxSide aw) (edge : TxEdge aw) : TxSide aw where
  bus := side.busEdge edge
  spd := side.spd.step ⟨edge.bus.map fun _ => side.bus.txSpd, edge.net.isSome⟩
  net :=
    let net := side.netEdge edge
    if edge.iReset then { net with qTxReset := 3 } else net

/-- The registers that have an initial value have it; that of `hw_mac` is a
parameter. -/
structure PowerUp (side : TxSide aw) : Prop where
  configHwCrc : side.bus.configHwCrc = false
  configHwMac : side.bus.configHwMac = false
  oNetResetN : side.bus.oNetResetN = false
  txCmd : side.bus.txCmd = false
  txCancel : side.bus.txCancel = false
  txSpd : side.bus.txSpd = 0
  spd : side.spd = .init
  nTxCmd : side.net.nTxCmd = false
  rTxCmd : side.net.rTxCmd = false
  nTxCancel : side.net.nTxCancel = false
  rTxCancel : side.net.rTxCancel = false
  nTxBusy : side.net.nTxBusy = false
  nStillBusy : side.net.nStillBusy = false
  startSignal : side.net.stages.addr.startSignal = false
  oMemv : side.net.stages.addr.oMemv = false
  rLen : side.net.stages.addr.rLen = 0
  lclAddr : side.net.stages.addr.lclAddr = 0
  nextAddr : side.net.stages.addr.nextAddr = 1
  mac : side.net.stages.mac.rPos = 0 ∧ side.net.stages.mac.oV = false ∧
    side.net.stages.mac.oByte = 0 ∧ ∀ place, side.net.stages.mac.rBuf place = ⟨false, 0⟩
  pad : side.net.stages.pad.oV = false ∧ side.net.stages.pad.rNcnt = 0
  crc : side.net.stages.crc = AddECrc.init
  pre : side.net.stages.pre.oV = false
  rSpd : side.net.speed.rSpd = TxeSpeed.spd1g
  rCe : side.net.speed.rCe = true
  ckCounter : side.net.speed.ckCounter = 0
  oCk : side.net.speed.oCk = 2
  secondHalf : side.net.speed.secondHalf = true
  oV : side.net.speed.oV = false
  oD : side.net.speed.oD = 0
  oCe : side.net.speed.oCe = false

end TxSide

end ZipVersa.Enet
