import ZipVersa.Enet.Receiver

/-! The transmit side of `enetpackets`: the stages a packet passes from the
transmit memory to the PHY (`txeaddr`, `addemac`, `addepad`, `addecrc`,
`addepreamble`), all on `i_net_tx_clk`. The clock enable of `txespeed` and what
comes from the bus clock (the command, the configuration, the memory contents)
are inputs. -/

set_option autoImplicit false

namespace ZipVersa.Enet

open Lib

/-- A shift register of nine-bit lanes; lane 0 holds the lowest bits and takes
what is shifted in. -/
def shiftIn {count : Nat} (register : Fin count → Lane) (lane : Lane) : Fin count → Lane :=
  fun place => if place.val = 0 then lane else register ⟨place.val - 1, by omega⟩

/-- A byte with its valid bit, as the next stage sees it. -/
def carried (v : Bool) (d : Byte) : Option Byte := if v then some d else none

/-! ### `txeaddr` -/

/-- `LGNBYTES` is `aw + 2`. -/
structure TxeAddr (aw : Nat) where
  startSignal : Bool
  oMemv : Bool
  rLen : BitVec (aw + 3)
  lclAddr : BitVec (aw + 3)
  nextAddr : BitVec (aw + 3)
  dataReg : BitVec 32
  deriving DecidableEq, Repr

namespace TxeAddr

variable {aw : Nat}

def minPktSz : Nat := 8

def step (addr : TxeAddr aw) (iReset iCe iStart : Bool) (iLen : BitVec (aw + 2))
    (iData : BitVec 32) : TxeAddr aw where
  startSignal :=
    if iReset then false
    else iStart && !addr.oMemv && !addr.startSignal && decide (minPktSz ≤ iLen.toNat)
  oMemv :=
    if iReset then false
    else if addr.startSignal then true
    else if iCe && addr.oMemv then addr.lclAddr.ult addr.rLen
    else addr.oMemv
  rLen :=
    if iReset then 0
    else if iStart && !addr.oMemv && !addr.startSignal then iLen.setWidth (aw + 3)
    else addr.rLen
  lclAddr :=
    if iReset then 0
    else if addr.startSignal then 1
    else if iCe && addr.oMemv then addr.lclAddr + 1
    else if !addr.oMemv then 0
    else addr.lclAddr
  nextAddr :=
    if iReset then 1
    else if addr.startSignal then 2
    else if iCe && addr.oMemv then addr.lclAddr + 2
    else if !addr.oMemv then 1
    else addr.nextAddr
  dataReg :=
    if addr.oMemv && iCe then
      (if !addr.oMemv || addr.lclAddr.setWidth 2 == 0#2 then iData else addr.dataReg <<< 8)
    else if !addr.oMemv then iData
    else addr.dataReg

def oAddr (addr : TxeAddr aw) : BitVec aw := addr.nextAddr.extractLsb' 2 aw

def oMemd (addr : TxeAddr aw) : Byte := addr.dataReg.extractLsb' 24 8

end TxeAddr

/-! ### `addemac` -/

structure AddEMac where
  rHw : BitVec 48
  rBuf : Fin 6 → Lane
  rPos : BitVec 5
  oV : Bool
  oByte : Byte

namespace AddEMac

/-- `{ r_hw[39:0], r_hw[47:40] }`. -/
def rotate (hw : BitVec 48) : BitVec 48 := hw.extractLsb' 0 40 ++ hw.extractLsb' 40 8

def step (mac : AddEMac) (iReset iCe iEn : Bool) (iHwMac : BitVec 48) (iV : Bool)
    (iByte : Byte) : AddEMac :=
  if iReset then
    { rHw := iHwMac
      rBuf := fun _ => ⟨false, 0x55⟩
      rPos := 0
      oV := false
      oByte := 0x55 }
  else if iCe then
    let idle := !iV && !mac.oV
    let shifted := shiftIn mac.rBuf ⟨iV, if iV then iByte else 0xff⟩
    { rHw := if !iV then iHwMac else rotate mac.rHw
      rBuf := if idle then fun place => { shifted place with v := false } else shifted
      rPos := if idle then 0 else if mac.rPos = 31 then mac.rPos else mac.rPos + 1
      oV :=
        if iEn then
          (if idle then false
          else if mac.rPos.ult 6 then iV
          else if mac.rPos.ult 12 then true
          else (mac.rBuf 5).v)
        else iV
      oByte :=
        if iEn then
          (if mac.rPos.ult 6 then iByte
          else if mac.rPos.ult 12 then mac.rHw.extractLsb' 40 8
          else (mac.rBuf 5).d)
        else iByte }
  else mac

end AddEMac

/-! ### `addepad` -/

structure AddEPad where
  rNcnt : BitVec 6
  oV : Bool
  oD : Byte
  deriving DecidableEq, Repr

namespace AddEPad

def minOctets : Nat := 60

def step (pad : AddEPad) (iReset iCe iV : Bool) (iD : Byte) : AddEPad :=
  if iReset then ⟨0, false, 0⟩
  else if iCe then
    { oV := iV || pad.oV && decide (pad.rNcnt.toNat < minOctets - 1)
      rNcnt :=
        if !pad.oV then 0
        else if pad.rNcnt.toNat < minOctets then pad.rNcnt + 1
        else pad.rNcnt
      oD := if iV then iD else 0 }
  else pad

end AddEPad

/-! ### `addecrc` -/

structure AddECrc where
  rP : BitVec 4
  rCrc : BitVec 32
  oV : Bool
  oD : Byte
  deriving DecidableEq, Repr

namespace AddECrc

def taps : BitVec 32 := 0xedb88320

/-- `crc_eqn`, from `crc_eqn[7]` down. -/
def crcEqn : Nat → BitVec 32
  | 0 => taps
  | below + 1 =>
      let above := crcEqn below
      if above.getLsbD 0 then above >>> 1 ^^^ taps else above >>> 1

/-- The loop over the bits of `lowoctet`. -/
def eqn (lowoctet : Byte) : BitVec 32 :=
  (List.range 8).foldl (fun eqn k =>
    if lowoctet.getLsbD k then eqn ^^^ crcEqn (7 - k) else eqn) 0

/-- `shifted_crc ^ eqn`. -/
def crcNext (rCrc : BitVec 32) (iD : Byte) : BitVec 32 :=
  rCrc >>> 8 ^^^ eqn (rCrc.setWidth 8 ^^^ iD)

def init : AddECrc := ⟨15, 0xffffffff, false, 0⟩

def step (crc : AddECrc) (iReset iCe iEn iV : Bool) (iD : Byte) : AddECrc :=
  if iReset then init
  else if iCe then
    { rCrc :=
        if iV then crcNext crc.rCrc iD
        else if crc.oV then 0xff#8 ++ crc.rCrc.extractLsb' 8 24
        else crc.rCrc
      rP := if iV || !crc.oV then 15 else crc.rP <<< 1
      oV := if iV then true else if !crc.oV then false else iEn && crc.rP.getLsbD 3
      oD :=
        if iV then iD
        else if !crc.oV then 0
        else crc.rCrc.extractLsb' 0 8 ^^^ 0xff }
  else crc

end AddECrc

/-! ### `addepreamble` -/

structure AddEPreamble where
  shiftreg : Fin 8 → Lane
  oV : Bool
  oD : Byte

namespace AddEPreamble

/-- The bytes `shiftreg` is loaded with between packets. -/
def preset (v : Bool) : Fin 8 → Lane :=
  fun place => ⟨v, if place.val = 0 then 0xd5 else 0x55⟩

def step (pre : AddEPreamble) (iReset iCe iEn iV : Bool) (iD : Byte) : AddEPreamble :=
  if iReset then
    { shiftreg := preset true
      oV := false
      oD := 0 }
  else if iCe then
    { shiftreg :=
        if !iV && !pre.oV then preset iEn else shiftIn pre.shiftreg ⟨iV, iD⟩
      oV := (pre.shiftreg 7).v && (pre.oV || iV)
      oD := (pre.shiftreg 7).d }
  else pre

end AddEPreamble

/-! ### The stages connected -/

/-- The wires into the transmitter at an edge of `i_net_tx_clk`. -/
structure TxClock (aw : Nat) where
  /-- `n_tx_reset || n_tx_cancel`. -/
  iReset : Bool
  txCe : Bool
  nTxCmd : Bool
  nTxLen : BitVec (aw + 2)
  configHwMac : Bool
  configHwCrc : Bool
  hwMac : BitVec 48
  txmem : BitVec aw → BitVec 32

structure Transmitter (aw : Nat) where
  addr : TxeAddr aw
  nTxData : BitVec 32
  mac : AddEMac
  pad : AddEPad
  crc : AddECrc
  pre : AddEPreamble

namespace Transmitter

variable {aw : Nat}

def step (tx : Transmitter aw) (clock : TxClock aw) : Transmitter aw where
  addr := tx.addr.step clock.iReset clock.txCe clock.nTxCmd clock.nTxLen tx.nTxData
  nTxData := clock.txmem tx.addr.oAddr
  mac := tx.mac.step clock.iReset clock.txCe clock.configHwMac clock.hwMac tx.addr.oMemv
    tx.addr.oMemd
  pad := tx.pad.step clock.iReset clock.txCe tx.mac.oV tx.mac.oByte
  crc := tx.crc.step clock.iReset clock.txCe clock.configHwCrc tx.pad.oV tx.pad.oD
  -- `n_tx_config_hw_preamble` is tied to one.
  pre := tx.pre.step clock.iReset clock.txCe true tx.crc.oV tx.crc.oD

/-- What leaves `addemac` and `addepreamble` at an enabled clock. -/
def macOut (tx : Transmitter aw) (clock : TxClock aw) : List (Option Byte) :=
  if clock.txCe then [carried tx.mac.oV tx.mac.oByte] else []

def preOut (tx : Transmitter aw) (clock : TxClock aw) : List (Option Byte) :=
  if clock.txCe then [carried tx.pre.oV tx.pre.oD] else []

/-- No stage has anything left to send: what `n_still_busy` waits for. -/
def quiet (tx : Transmitter aw) : Bool :=
  !tx.addr.oMemv && !tx.addr.startSignal && !tx.mac.oV && !tx.pad.oV && !tx.crc.oV && !tx.pre.oV

end Transmitter

end ZipVersa.Enet
