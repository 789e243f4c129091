import ZipVersa.Lib.BigEndian

/-! The packet record shared by the protocol layers (`pkt.h`, `pkt.c`) and the
accessors each layer applies on reception. `int` fields are 32-bit registers:
the C code mixes them with `unsigned` operands, so a comparison is unsigned as
soon as one side is. `p_user` is kept as its distance from `p_raw`. -/

set_option autoImplicit false

namespace ZipVersa.Net

open Lib

/-- `NET_PACKET`. The code never checks an index against `p_rawlen`, so the
memory is total: outside the allocation it holds whatever the heap held. -/
structure NetPacket where
  pUsageCount : Int
  pRawlen : BitVec 32
  pLength : BitVec 32
  pRaw : Int → Byte
  pUser : Int

namespace NetPacket

/-- `pkt->p_user[k]`. -/
def get (pkt : NetPacket) (index : Int) : Byte := pkt.pRaw (pkt.pUser + index)

/-- `pkt->p_user[k] = value`. -/
def put (pkt : NetPacket) (index : Int) (value : Byte) : NetPacket :=
  { pkt with pRaw := Function.update pkt.pRaw (pkt.pUser + index) value }

/-- Moving `p_user` down by `size` bytes to make room for a header. -/
def grow (pkt : NetPacket) (size : Nat) : NetPacket :=
  { pkt with pUser := pkt.pUser - size, pLength := pkt.pLength + BitVec.ofNat 32 size }

/-- Moving `p_user` up past a header of `size` bytes. -/
def strip (pkt : NetPacket) (size : BitVec 32) : NetPacket :=
  { pkt with pUser := pkt.pUser + size.toNat, pLength := pkt.pLength - size }

/-- A run of assignments to consecutive bytes of `p_user`. -/
def putAll (pkt : NetPacket) (index : Int) : List Byte → NetPacket
  | [] => pkt
  | value :: rest => (pkt.put index value).putAll (index + 1) rest

/-- The bytes `[p_user, p_user + p_length)`. -/
def contents (pkt : NetPacket) : List Byte :=
  (List.range pkt.pLength.toNat).map fun index : Nat => pkt.get index

@[simp] theorem put_pUser (pkt : NetPacket) (index : Int) (value : Byte) :
    (pkt.put index value).pUser = pkt.pUser := rfl

@[simp] theorem put_pLength (pkt : NetPacket) (index : Int) (value : Byte) :
    (pkt.put index value).pLength = pkt.pLength := rfl

@[simp] theorem put_pUsageCount (pkt : NetPacket) (index : Int) (value : Byte) :
    (pkt.put index value).pUsageCount = pkt.pUsageCount := rfl

@[simp] theorem putAll_pUser (pkt : NetPacket) (index : Int) (values : List Byte) :
    (pkt.putAll index values).pUser = pkt.pUser := by
  induction values generalizing pkt index with
  | nil => rfl
  | cons value rest ih => simp [putAll, ih]

@[simp] theorem putAll_pLength (pkt : NetPacket) (index : Int) (values : List Byte) :
    (pkt.putAll index values).pLength = pkt.pLength := by
  induction values generalizing pkt index with
  | nil => rfl
  | cons value rest ih => simp [putAll, ih]

@[simp] theorem putAll_pUsageCount (pkt : NetPacket) (index : Int) (values : List Byte) :
    (pkt.putAll index values).pUsageCount = pkt.pUsageCount := by
  induction values generalizing pkt index with
  | nil => rfl
  | cons value rest ih => simp [putAll, ih]

/-- Bytes below a run of assignments keep their value. -/
theorem putAll_below (pkt : NetPacket) (index : Int) (values : List Byte) (position : Int)
    (below : position < pkt.pUser + index) :
    (pkt.putAll index values).pRaw position = pkt.pRaw position := by
  induction values generalizing pkt index with
  | nil => rfl
  | cons value rest ih =>
      rw [putAll, ih _ _ (by simp only [put_pUser]; omega)]
      exact Function.update_of_ne (by omega) _ _

theorem putAll_above (pkt : NetPacket) (index : Int) (values : List Byte) (position : Int)
    (above : pkt.pUser + index + values.length ≤ position) :
    (pkt.putAll index values).pRaw position = pkt.pRaw position := by
  induction values generalizing pkt index with
  | nil => rfl
  | cons value rest ih =>
      simp only [List.length_cons] at above
      rw [putAll, ih _ _ (by simp only [put_pUser]; push_cast at above; omega)]
      exact Function.update_of_ne (by push_cast at above; omega) _ _

/-- A run of assignments stores its bytes in order. -/
theorem putAll_inside (pkt : NetPacket) (index : Int) (values : List Byte) (offset : Nat)
    (inside : offset < values.length) :
    (pkt.putAll index values).pRaw (pkt.pUser + index + offset) = values[offset] := by
  induction values generalizing pkt index offset with
  | nil => simp at inside
  | cons value rest ih =>
      cases offset with
      | zero =>
          rw [putAll, putAll_below _ _ _ _ (by simp only [put_pUser]; omega)]
          simp [put]
      | succ offset =>
          have shifted := ih (pkt.put index value) (index + 1) offset (by simpa using inside)
          rw [putAll]
          simp only [put_pUser] at shifted
          rw [List.getElem_cons_succ, ← shifted]
          congr 1
          push_cast
          omega

end NetPacket

/-! ### `etcnet.h` and `protoconst.h` -/

def defaultip : BitVec 32 := 0xc0a80f16
def lclnetmask : BitVec 32 := 0xffffff00
def defaultRouterip : BitVec 32 := 0xc0a80f01
def defaultmac : BitVec 64 := 0xa25345b6fb5e
def ethertypeIp : BitVec 32 := 0x0800
def ethertypeArp : BitVec 32 := 0x0806
def ipprotoIcmp : BitVec 32 := 1
def ipprotoUdp : BitVec 32 := 17
def icmpEchoreply : Byte := 0
def icmpPing : Byte := 8
def bigPrime : BitVec 32 := 0x0134513b

/-! ### `pkt.c` -/

def enetRxavail : BitVec 32 := 0x004000
/-- `ENET_RXMISS|ENET_RXERR|ENET_RXCRC|ENET_RXBUSY`. -/
def enetRxclrerr : BitVec 32 := 0x010000 ||| 0x020000 ||| 0x040000 ||| 0x008000

def enetRxlen (command : BitVec 32) : BitVec 32 := command &&& 0x3fff

/-- `rx_pkt`: `rxcmd` is the receive control register, `netbrx` the receive
memory and `heap` what the bytes beyond the copied ones happen to hold. -/
def rxPkt (rxcmd : BitVec 32) (netbrx heap : Int → Byte) : Option NetPacket :=
  if rxcmd &&& enetRxavail = 0 then none
  else if rxcmd &&& enetRxclrerr ≠ 0 ∨ 2047 < enetRxlen rxcmd then none
  else some {
    pUsageCount := 1
    pRawlen := enetRxlen rxcmd
    pLength := enetRxlen rxcmd
    pRaw := fun index =>
      if 0 ≤ index ∧ index < (enetRxlen rxcmd).toNat + 2 then netbrx index else heap index
    pUser := 0 }

def pktReset (pkt : NetPacket) : NetPacket :=
  { pkt with pLength := pkt.pRawlen, pUser := 0 }

/-! ### `ethproto.c` -/

def ethHeadersize : Nat := 8

def rxEthpkt (pkt : NetPacket) : NetPacket := pkt.strip 8

def ethpktEthtype (pkt : NetPacket) : BitVec 32 := be16 (pkt.get 6) (pkt.get 7)

/-! ### `ipproto.c` -/

def ipHeadersize : Nat := 20

/-- The header length nibble, in bytes. -/
def ippktHeaderBytes (pkt : NetPacket) : BitVec 32 :=
  ((pkt.get 0).setWidth 32 &&& 0x0f) * 4

def rxIppkt (pkt : NetPacket) : NetPacket := pkt.strip (ippktHeaderBytes pkt)

def ippktSrc (pkt : NetPacket) : BitVec 32 :=
  be32 (pkt.get 12) (pkt.get 13) (pkt.get 14) (pkt.get 15)

def ippktDst (pkt : NetPacket) : BitVec 32 :=
  be32 (pkt.get 16) (pkt.get 17) (pkt.get 18) (pkt.get 19)

def ippktSubproto (pkt : NetPacket) : BitVec 32 := (pkt.get 9).setWidth 32

/-! ### `udpproto.c` -/

def udpHeadersize : Nat := 8

def udpSport (pkt : NetPacket) : BitVec 32 := be16 (pkt.get 0) (pkt.get 1)

def udpDport (pkt : NetPacket) : BitVec 32 := be16 (pkt.get 2) (pkt.get 3)

def udpLength (pkt : NetPacket) : BitVec 32 := be16 (pkt.get 4) (pkt.get 5)

/-- `rx_udp`. `p_length` is an `int` and the length field `unsigned`, so the
second comparison is unsigned. -/
def rxUdp (pkt : NetPacket) : NetPacket :=
  { pkt with
    pUser := pkt.pUser + udpHeadersize
    pLength :=
      if udpLength pkt ≤ 8 then 0
      else if udpLength pkt < pkt.pLength then udpLength pkt - 8
      else pkt.pLength - 8 }

end ZipVersa.Net
