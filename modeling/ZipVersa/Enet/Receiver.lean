import ZipVersa.Enet.RxeIpChk

/-! The receive side of `enetpackets`: the filters a packet passes from the PHY
to the receive memory (`rxepreambl`, `rxecrc`, `rxehwmac`, `rxewrite`, with
`rxeipchk` listening beside them) and the registers that hand a packet over to
the processor. All of them run on `i_net_rx_clk`; what comes from the bus clock
(the configuration and `n_rx_clear`) is an input. The link status is left out. -/

set_option autoImplicit false

namespace ZipVersa.Enet

open Lib

/-! ### `rxepreambl` -/

structure RxePreambl where
  rInpkt : Bool
  nsyncs : BitVec 4
  oV : Bool
  oD : Byte
  deriving DecidableEq, Repr

namespace RxePreambl

def init : RxePreambl := ⟨false, 0, false, 0⟩

def step (pre : RxePreambl) (iReset iCe iEn iV : Bool) (iD : Byte) : RxePreambl :=
  if iReset then ⟨false, 0, false, 0⟩
  else if iCe then
    let nsyncs :=
      if !iV && !pre.oV then 0#4
      else if iD == 0x55#8 && iV then
        (if pre.nsyncs = 15 then pre.nsyncs else pre.nsyncs + 1)
      else 0
    let passed : RxePreambl :=
      if !iV && !pre.oV then ⟨false, nsyncs, false, 0⟩
      else if !pre.rInpkt then
        ⟨(6#4).ult pre.nsyncs && iV && iD == 0xd5#8, nsyncs, false, 0⟩
      else ⟨pre.rInpkt, nsyncs, iV, if iV then iD else 0⟩
    if !iEn then { passed with oV := iV, oD := if iV then iD else 0 } else passed
  else pre

end RxePreambl

/-! ### `rxecrc` -/

/-- A nine-bit lane of `r_buf`: a byte below its valid bit. -/
structure Lane where
  v : Bool
  d : Byte
  deriving DecidableEq, Repr

/-- `r_buf` is kept as its three lanes, `r_buf[8:0]`, `r_buf[17:9]` and
`r_buf[26:18]`, and the match shift registers bit by bit. -/
structure RxeCrc where
  rErr : Bool
  rMq0 : Bool
  rMq1 : Bool
  rMq2 : Bool
  rMp0 : Bool
  rMp1 : Bool
  rMp2 : Bool
  rMp3 : Bool
  rCrc : BitVec 32
  rCrcQ0 : BitVec 24
  rCrcQ1 : BitVec 16
  rCrcQ2 : BitVec 8
  buf0 : Lane
  buf1 : Lane
  buf2 : Lane
  oV : Bool
  oD : Byte
  deriving DecidableEq, Repr

namespace RxeCrc

def taps : BitVec 32 := 0xedb88320

/-- `crc_eqn`, from `crc_eqn[7]` down. -/
def crcEqn : Nat → BitVec 32
  | 0 => taps
  | below + 1 =>
      let above := crcEqn below
      if above.getLsbD 0 then above >>> 1 ^^^ taps else above >>> 1

/-- The loop over the bits of `lowoctet`. -/
def eqn (lowoctet : Byte) : BitVec 32 :=
  (List.range 8).foldl (fun eqn k =>
    if lowoctet.getLsbD k then eqn ^^^ crcEqn (7 - k) else eqn) 0

/-- `shifted_crc ^ eqn`. -/
def crcNext (rCrc : BitVec 32) (iD : Byte) : BitVec 32 :=
  rCrc >>> 8 ^^^ eqn (rCrc.setWidth 8 ^^^ iD)

def init : RxeCrc where
  rErr := false
  rMq0 := false
  rMq1 := false
  rMq2 := false
  rMp0 := false
  rMp1 := false
  rMp2 := false
  rMp3 := false
  rCrc := 0xffffffff
  rCrcQ0 := 0
  rCrcQ1 := 0
  rCrcQ2 := 0
  buf0 := ⟨false, 0⟩
  buf1 := ⟨false, 0⟩
  buf2 := ⟨false, 0⟩
  oV := false
  oD := 0

/-- Whether the end of a packet cuts off a lane: the packet is trimmed to the
last matching CRC. -/
def trims (crc : RxeCrc) (iV : Bool) : Bool := !iV && crc.buf0.v

def step (crc : RxeCrc) (iReset iCe iEn iV : Bool) (iD : Byte) : RxeCrc where
  rCrc :=
    if iReset then 0xffffffff
    else if iCe then
      (if iV then crcNext crc.rCrc iD else if !crc.oV then 0xffffffff else crc.rCrc)
    else crc.rCrc
  buf0 := { v := if iReset then false else if iCe then iV else crc.buf0.v
            d := if iCe then iD else crc.buf0.d }
  buf1 := { v := if iReset then false
              else if iCe then
                crc.buf0.v && !(crc.trims iV && (crc.rMp3 || crc.rMp2))
              else crc.buf1.v
            d := if iCe then crc.buf0.d else crc.buf1.d }
  buf2 := { v := if iReset then false
              else if iCe then crc.buf1.v && !(crc.trims iV && crc.rMp3)
              else crc.buf2.v
            d := if iCe then crc.buf1.d else crc.buf2.d }
  oV := if iReset then false else if iCe then crc.buf2.v else crc.oV
  oD := if iCe then crc.buf2.d else crc.oD
  rCrcQ0 := if iCe then crc.rCrc.extractLsb' 8 24 else crc.rCrcQ0
  rCrcQ1 := if iCe then crc.rCrcQ0.extractLsb' 8 16 else crc.rCrcQ1
  rCrcQ2 := if iCe then crc.rCrcQ1.extractLsb' 8 8 else crc.rCrcQ2
  rMp0 :=
    if iReset then false
    else if iCe then
      (if !iV && !crc.oV then false else crc.rMq2 && iV && iD == ~~~ crc.rCrcQ2)
    else crc.rMp0
  rMp1 :=
    if iReset then false
    else if iCe then (if !iV && !crc.oV then false else crc.rMp0) else crc.rMp1
  rMp2 :=
    if iReset then false
    else if iCe then (if !iV && !crc.oV then false else crc.rMp1) else crc.rMp2
  rMp3 :=
    if iReset then false
    else if iCe then (if !iV && !crc.oV then false else crc.rMp2) else crc.rMp3
  rErr :=
    if iReset then false
    else if iCe then
      (if !iV && !crc.oV then false
      else if !crc.rErr && iEn then
        !iV && crc.buf0.v && !(crc.rMp0 || crc.rMp1 || crc.rMp2 || crc.rMp3)
      else crc.rErr)
    else crc.rErr
  rMq0 :=
    if iReset then false
    else if iCe then (if iV then iD == ~~~ crc.rCrc.setWidth 8 else false) else crc.rMq0
  rMq1 :=
    if iReset then false
    else if iCe then
      (if iV then crc.rMq0 && iD == ~~~ crc.rCrcQ0.setWidth 8 else false)
    else crc.rMq1
  rMq2 :=
    if iReset then false
    else if iCe then
      (if iV then crc.rMq1 && iD == ~~~ crc.rCrcQ1.setWidth 8 else false)
    else crc.rMq2

end RxeCrc

/-! ### `rxehwmac` -/

structure RxeHwMac where
  rHwmac : BitVec 48
  rHwmatch : Bool
  rBroadcast : Bool
  rP : BitVec 7
  oV : Bool
  oD : Byte
  oErr : Bool
  oBroadcast : Bool
  deriving DecidableEq, Repr

namespace RxeHwMac

def init : RxeHwMac := ⟨0, true, true, -1, false, 0, false, false⟩

def step (mac : RxeHwMac) (iReset iCe iEn : Bool) (iHwmac : BitVec 48) (iV : Bool) (iD : Byte) :
    RxeHwMac where
  rHwmac :=
    if iReset then iHwmac
    else if iCe then
      (if !iV && !mac.oV then iHwmac
      else if iV && mac.rP.getLsbD 5 then mac.rHwmac <<< 8
      else mac.rHwmac)
    else mac.rHwmac
  rHwmatch :=
    if iReset then true
    else if iCe then
      (if !iV && !mac.oV then true
      else if mac.rP.getLsbD 5 && mac.rHwmac.extractLsb' 40 8 != iD then false
      else mac.rHwmatch)
    else mac.rHwmatch
  rBroadcast :=
    if iReset then true
    else if iCe then
      (if !iV && !mac.oV then true
      else if mac.rP.getLsbD 5 && 0xff#8 != iD then false
      else mac.rBroadcast)
    else mac.rBroadcast
  oBroadcast :=
    if iReset then false
    else if iCe then
      (if !iV then false else if !mac.rP.getLsbD 5 then mac.rBroadcast else mac.oBroadcast)
    else mac.oBroadcast
  rP :=
    if iReset then -1
    else if iCe then (if !iV && !mac.oV then -1 else mac.rP <<< 1)
    else mac.rP
  oV :=
    if iReset then false
    else if iCe then (if iEn && mac.rP.getLsbD 5 then false else iV)
    else mac.oV
  oD := if iReset then 0 else if iCe then iD else mac.oD
  oErr :=
    if iReset then false
    else if iCe then
      (if !iV then false
      else if iEn && mac.rP.extractLsb' 5 2 == 2#2 && iV then !mac.rHwmatch && !mac.rBroadcast
      else mac.oErr)
    else mac.oErr

end RxeHwMac

/-! ### `rxewrite` -/

structure RxeWrite (aw : Nat) where
  oV : Bool
  lclAddr : BitVec (aw + 3)
  oData : BitVec 32
  oAddr : BitVec aw
  deriving DecidableEq, Repr

namespace RxeWrite

variable {aw : Nat}

def init : RxeWrite aw := ⟨false, 0, 0, 0⟩

/-- The word with a byte put in at the place `lcl_addr[1:0]` names and zeros
after it. -/
def place (oData : BitVec 32) (position : BitVec 2) (iD : Byte) : BitVec 32 :=
  if position = 0 then iD ++ 0#24
  else if position = 1 then oData.extractLsb' 24 8 ++ iD ++ 0#16
  else if position = 2 then oData.extractLsb' 16 16 ++ iD ++ 0#8
  else oData.extractLsb' 8 24 ++ iD

def step (wr : RxeWrite aw) (iReset iCe iV : Bool) (iD : Byte) : RxeWrite aw :=
  if iReset then init
  else if iCe then
    if !iV && !wr.oV then init
    else
      { lclAddr := wr.lclAddr + 1
        oV := iV
        oData := place wr.oData (wr.lclAddr.setWidth 2) iD
        oAddr := wr.lclAddr.extractLsb' 2 aw }
  else wr

def oLen (wr : RxeWrite aw) : BitVec (aw + 2) := wr.lclAddr.setWidth (aw + 2)

end RxeWrite

/-! ### The receive registers -/

/-- The wires into the receiver at an edge of `i_net_rx_clk`. -/
structure RxClock where
  nRxReset : Bool
  iNetRxDv : Bool
  iNetRxd : Byte
  nRxClear : Bool
  hwMac : BitVec 48
  configHwMac : Bool
  configHwCrc : Bool
  configHwIpCheck : Bool
  deriving DecidableEq, Repr

/-- The receive memory is total over its addresses. -/
structure Receiver (aw : Nat) where
  pre : RxePreambl
  crc : RxeCrc
  mac : RxeHwMac
  ip : RxeIpChk
  wr : RxeWrite aw
  nRxNetErr : Bool
  lastRxwr : Bool
  nRxBusy : Bool
  nRxMiss : Bool
  nRxCrcerr : Bool
  nRxErr : Bool
  nRxBroadcast : Bool
  nRxValid : Bool
  nRxLen : BitVec (aw + 2)
  nRxConfigHwMac : Bool
  nRxConfigHwCrc : Bool
  nRxConfigIpCheck : Bool
  rxmem : BitVec aw → BitVec 32

namespace Receiver

variable {aw : Nat}

/-- `n_eop`. -/
def nEop (rx : Receiver aw) : Bool := !rx.wr.oV && rx.lastRxwr && !rx.nRxNetErr

/-- `w_minerr`: the minimum length check is not built in. -/
def wMinerr : Bool := false

def step (rx : Receiver aw) (clock : RxClock) : Receiver aw :=
  let reset := clock.nRxReset || rx.nRxNetErr
  { pre := rx.pre.step reset true true clock.iNetRxDv clock.iNetRxd
    crc := rx.crc.step reset true rx.nRxConfigHwCrc rx.pre.oV rx.pre.oD
    mac := rx.mac.step reset true rx.nRxConfigHwMac clock.hwMac rx.crc.oV rx.crc.oD
    ip := rx.ip.step {
      iReset := reset, iCe := true, iEn := rx.nRxConfigIpCheck, iV := rx.crc.oV, iD := rx.crc.oD }
    wr := rx.wr.step reset true rx.mac.oV rx.mac.oD
    rxmem :=
      if rx.wr.oV && !rx.nRxValid then Function.update rx.rxmem rx.wr.oAddr rx.wr.oData
      else rx.rxmem
    nRxNetErr := clock.iNetRxDv &&
      (wMinerr || rx.mac.oErr || rx.crc.rErr || rx.ip.oErr || rx.nRxNetErr ||
        (rx.wr.oV && rx.nRxValid))
    lastRxwr := rx.wr.oV
    nRxBusy := !rx.nRxNetErr &&
      (clock.iNetRxDv || rx.pre.oV || rx.crc.oV || rx.mac.oV || rx.wr.oV)
    nRxMiss := (rx.nRxValid && rx.wr.oV) || (rx.nRxMiss && !clock.nRxClear)
    nRxCrcerr := (rx.crc.rErr && !rx.nRxNetErr) || (rx.nRxCrcerr && !clock.nRxClear)
    nRxErr := (rx.nRxErr && !clock.nRxClear) || wMinerr
    nRxBroadcast := rx.mac.oBroadcast || (rx.nRxBroadcast && !clock.nRxClear)
    nRxValid := if clock.nRxClear then false else if rx.nEop then true else rx.nRxValid
    nRxLen :=
      if clock.nRxClear then 0
      else if rx.nEop then rx.wr.oLen - (if rx.nRxConfigHwCrc then 5 else 0)
      else rx.nRxLen
    nRxConfigHwMac :=
      if !clock.iNetRxDv || clock.nRxClear then clock.configHwMac else rx.nRxConfigHwMac
    nRxConfigHwCrc :=
      if !clock.iNetRxDv || clock.nRxClear then clock.configHwCrc else rx.nRxConfigHwCrc
    nRxConfigIpCheck :=
      if !clock.iNetRxDv || clock.nRxClear then clock.configHwIpCheck
      else rx.nRxConfigIpCheck }

end Receiver

end ZipVersa.Enet
