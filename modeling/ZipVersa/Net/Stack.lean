import ZipVersa.Fft.Device
import ZipVersa.Lib.RefCount
import ZipVersa.Net.Bounds

/-! The sending side of the network stack (`pkt.c`, `ethproto.c`, `arp.c`,
`ipproto.c`, `udpproto.c`, `icmp.c`) as functions on the program's memory:
packets are cells of a reference-counting arena, a `NET_PACKET *` is the
address of a cell. Console output is left out. -/

set_option autoImplicit false

namespace ZipVersa.Net

open Lib

/-- `ARP_TABLE_ENTRY`. -/
structure ArpTableEntry where
  valid : Bool := false
  age : BitVec 32 := 0
  ipaddr : BitVec 32 := 0
  mac : BitVec 64 := 0
  deriving DecidableEq, Repr

/-- What the board answers while the program runs: the `ENET_TXBUSY` bit at
each successive read of `n_txcmd`, the bytes `malloc` returns, and the
uninitialised `eid` of `arp_table_add`. -/
structure Board where
  txBusy : Nat → Bool
  mallocBytes : Int → Byte
  staleEid : Nat

/-- The program's memory. `sent` lists the frames copied to `_netbtx` with
`ENET_TXGO`, `fftOps` the accesses to the FFT core. -/
structure World where
  arena : Arena NetPacket
  waitingPkt : Option Nat
  ipPktid : BitVec 32
  icmppktId : BitVec 32
  arpTable : List ArpTableEntry
  routerMacAddr : BitVec 64
  txReads : Nat
  sent : List (List Byte)
  device : Fft.Device
  fftOps : List Fft.BusOp

/-- `p_usage_count` as the count of an arena cell. -/
def usageLens : CountLens NetPacket where
  count := NetPacket.pUsageCount
  setCount value pkt := { pkt with pUsageCount := value }
  count_setCount _ _ := rfl

namespace World

/-- Run a pointer operation on the packet at an address. -/
def modifyPkt (world : World) (pkt : Nat) (change : NetPacket → NetPacket) : World :=
  { world with arena := world.arena.modify pkt change }

/-- The packet at an address; freed addresses read as an empty packet. -/
def pkt (world : World) (address : Nat) : NetPacket :=
  (world.arena.cells address).getD
    { pUsageCount := 0, pRawlen := 0, pLength := 0, pRaw := fun _ => 0, pUser := 0 }

end World

/-! ### `pkt.c` -/

def freePkt (world : World) (pkt : Nat) : World :=
  { world with arena := world.arena.release usageLens pkt }

/-- `new_pkt`: the address of the packet is the arena's next one. -/
def newPkt (board : Board) (world : World) (msglen : Nat) : World × Nat :=
  ({ world with
      arena := world.arena.alloc {
        pUsageCount := 1
        pRawlen := BitVec.ofNat 32 msglen
        pLength := BitVec.ofNat 32 msglen
        pRaw := board.mallocBytes
        pUser := 0 } },
    world.arena.next)

/-- `tx_busy` of both applications. -/
def txBusy (world : World) (txpkt : Nat) : World :=
  match world.waitingPkt with
  | none => { world with waitingPkt := some txpkt }
  | some waiting =>
      if txpkt = waiting then world
      else { freePkt world waiting with waitingPkt := some txpkt }

def txPkt (board : Board) (world : World) (pkt : Nat) : World :=
  let polled := { world with txReads := world.txReads + 1 }
  if board.txBusy world.txReads then txBusy polled pkt
  else freePkt { polled with sent := polled.sent ++ [(polled.pkt pkt).contents] } pkt

/-! ### `ethproto.c` -/

def newEthpkt (board : Board) (world : World) (ln : Nat) : World × Nat :=
  let (allocated, pkt) := newPkt board world (ln + 8)
  (allocated.modifyPkt pkt (·.strip 8), pkt)

/-- The header `tx_ethpkt` puts before the payload. -/
def ethHeader (ethtype : BitVec 32) (mac : BitVec 64) (pkt : NetPacket) : NetPacket :=
  (pkt.grow ethHeadersize).putAll 0
    [octet mac 5, octet mac 4, octet mac 3, octet mac 2, octet mac 1, octet mac 0,
      octet ethtype 1, octet ethtype 0]

def txEthpkt (board : Board) (world : World) (pkt : Nat) (ethtype : BitVec 32)
    (mac : BitVec 64) : World :=
  txPkt board (world.modifyPkt pkt (ethHeader ethtype mac)) pkt

/-! ### `arp.c` -/

def newArp (board : Board) (world : World) : World × Nat := newEthpkt board world 28

/-- The body of an ARP packet of the board: `arp_packet` with the operation,
the board's addresses and the target's addresses filled in. -/
def arpBody (operation : Byte) (targetMac : BitVec 64) (targetIp : BitVec 32) : List Byte :=
  [0x00, 0x01, 0x08, 0x00, 0x06, 0x04, 0x00, operation,
    octet defaultmac 5, octet defaultmac 4, octet defaultmac 3, octet defaultmac 2,
    octet defaultmac 1, octet defaultmac 0,
    octet defaultip 3, octet defaultip 2, octet defaultip 1, octet defaultip 0,
    octet targetMac 5, octet targetMac 4, octet targetMac 3, octet targetMac 2,
    octet targetMac 1, octet targetMac 0,
    octet targetIp 3, octet targetIp 2, octet targetIp 1, octet targetIp 0]

def sendArpRequest (board : Board) (world : World) (ipaddr : BitVec 32) : World :=
  let (allocated, pkt) := newArp board world
  txEthpkt board (allocated.modifyPkt pkt (·.putAll 0 (arpBody 1 0 ipaddr))) pkt
    ethertypeArp 0xffffffffffff

def sendArpReply (board : Board) (world : World) (destMacAddr : BitVec 64)
    (destIpAddr : BitVec 32) : World :=
  let (allocated, pkt) := newArp board world
  txEthpkt board (allocated.modifyPkt pkt (·.putAll 0 (arpBody 2 destMacAddr destIpAddr))) pkt
    ethertypeArp destMacAddr

/-- The table scan of `arp_lookup`: a hit clears its age and ends the scan,
every valid entry passed on the way grows older. -/
def arpScan (ipaddr : BitVec 32) : BitVec 32 → List ArpTableEntry →
    List ArpTableEntry × Option (BitVec 64)
  | _, [] => ([], none)
  | oldage, entry :: rest =>
      if entry.valid then
        if entry.ipaddr = ipaddr then ({ entry with age := 0 } :: rest, some entry.mac)
        else if oldage < entry.age then
          let (scanned, found) := arpScan ipaddr entry.age rest
          ({ entry with age := entry.age + 1, valid := !(0x10000#32).sle entry.age } :: scanned,
            found)
        else
          let (scanned, found) := arpScan ipaddr oldage rest
          ({ entry with age := entry.age + 1 } :: scanned, found)
      else
        let (scanned, found) := arpScan ipaddr oldage rest
        (entry :: scanned, found)

/-- `arp_lookup`: the MAC, or `none` after having sent an ARP request. -/
def arpLookup (board : Board) (world : World) (ipaddr : BitVec 32) :
    World × Option (BitVec 64) :=
  if ((ipaddr ^^^ defaultip) &&& lclnetmask ≠ 0 ∨ ipaddr = defaultRouterip) ∧
      world.routerMacAddr ≠ 0 then
    (world, some world.routerMacAddr)
  else
    let (scanned, found) := arpScan ipaddr 0 world.arpTable
    let aged := { world with arpTable := scanned }
    match found with
    | some mac => (aged, some mac)
    | none => (sendArpRequest board aged ipaddr, none)

/-- `get_next_arp_index`: the first unused entry, else the eldest. -/
def nextArpIndex : Nat → Nat → BitVec 32 → List ArpTableEntry → Nat
  | _, eldest, _, [] => eldest
  | eid, eldest, oldage, entry :: rest =>
      if !entry.valid then eid
      else if oldage < entry.age then nextArpIndex (eid + 1) eid entry.age rest
      else nextArpIndex (eid + 1) eldest oldage rest

def getNextArpIndex (table : List ArpTableEntry) : Nat := nextArpIndex 0 0 0 table

/-- `arp_table_add`. In its last branch the pointer to the `valid` flag is
taken before `eid` is assigned, so the flag that is set is the one of the
stale index. -/
def arpTableAdd (board : Board) (world : World) (ipaddr : BitVec 32) (mac : BitVec 64) :
    World :=
  if ipaddr = defaultip then world
  else if ipaddr = defaultRouterip then { world with routerMacAddr := mac }
  else
    let (searched, found) := arpLookup board world ipaddr
    match found with
    | some lclmac =>
        if mac = lclmac then searched
        else
          match searched.arpTable.findIdx? fun entry => entry.valid && entry.ipaddr == ipaddr with
          | none => searched
          | some eid =>
              { searched with
                arpTable := searched.arpTable.modify eid fun entry =>
                  { entry with age := 0, mac } }
    | none =>
        let eid := getNextArpIndex searched.arpTable
        let filled := searched.arpTable.modify eid fun entry => { entry with age := 0, ipaddr, mac }
        { searched with
          arpTable := filled.modify board.staleEid fun entry => { entry with valid := true } }

/-- `rx_arp`, on the packet at `pkt`; it drops one reference to it. -/
def rxArp (board : Board) (world : World) (pkt : Nat) : World :=
  let request := world.pkt pkt
  if [request.get 0, request.get 1, request.get 2, request.get 3, request.get 4,
      request.get 5] ≠ [0x00, 0x01, 0x08, 0x00, 0x06, 0x04] then
    freePkt (world.modifyPkt pkt pktReset) pkt
  else
    let srcMac : BitVec 64 :=
      ((be16 (request.get 8) (request.get 9)).setWidth 64 <<< 32) |||
        (be32 (request.get 10) (request.get 11) (request.get 12) (request.get 13)).setWidth 64
    let srcIp := be32 (request.get 14) (request.get 15) (request.get 16) (request.get 17)
    let handled :=
      if request.get 7 = 1 then sendArpReply board world srcMac srcIp
      else if request.get 7 = 2 then arpTableAdd board world srcIp srcMac
      else world
    freePkt handled pkt

/-! ### `ipproto.c` and `ipcksum.c` -/

/-- `while(checksum & ~0x0ffff)` of `ipcksum`. -/
def foldCarries (checksum : BitVec 32) : BitVec 32 :=
  if checksum.toNat < 65536 then checksum
  else foldCarries ((checksum &&& 0xffff) + (checksum >>> 16))
termination_by checksum.toNat
decreasing_by
  have low : (checksum &&& 0xffff#32).toNat = checksum.toNat % 65536 := by
    rw [BitVec.toNat_and]
    exact Nat.and_two_pow_sub_one_eq_mod checksum.toNat 16
  have high : (checksum >>> 16).toNat = checksum.toNat / 65536 := by
    rw [BitVec.toNat_ushiftRight, Nat.shiftRight_eq_div_pow]
  change ((checksum &&& 0xffff#32) + (checksum >>> 16)).toNat < checksum.toNat
  rw [BitVec.toNat_add, low, high, Nat.mod_eq_of_lt (by omega)]
  omega

/-- `ipcksum(len, ptr)`. -/
def ipcksum (len : Nat) (get : Nat → Byte) : BitVec 32 :=
  foldCarries ((List.range ((len + 1) / 2)).foldl
    (fun checksum pair => checksum + be16 (get (2 * pair)) (get (2 * pair + 1))) 0) ^^^ 0xffff

def newIppkt (board : Board) (world : World) (ln : Nat) : World × Nat :=
  let (allocated, pkt) := newEthpkt board world (ln + 20)
  (allocated.modifyPkt pkt (·.strip 20), pkt)

/-- `ip_set`, with the packet id already advanced. -/
def ipSet (pktid subproto src dest : BitVec 32) (pkt : NetPacket) : NetPacket :=
  let unsummed := pkt.putAll 0
    [0x45, 0x00, octet pkt.pLength 1, octet pkt.pLength 0, octet pktid 1, octet pktid 0,
      0x00, 0x00, 0x80, octet subproto 0, 0x00, 0x00,
      octet src 3, octet src 2, octet src 1, octet src 0,
      octet dest 3, octet dest 2, octet dest 1, octet dest 0]
  let cksum := ipcksum ipHeadersize fun index => unsummed.get index
  unsummed.putAll 10 [octet cksum 1, octet cksum 0]

def txIppkt (board : Board) (world : World) (pkt : Nat) (subproto src dest : BitVec 32) :
    World :=
  if (world.pkt pkt).pUser < 20 + 8 then freePkt world pkt
  else
    let pktid := world.ipPktid + bigPrime
    let headed := ({ world with ipPktid := pktid }).modifyPkt pkt fun packet =>
      ipSet pktid subproto src dest (packet.grow ipHeadersize)
    let (searched, found) := arpLookup board headed dest
    match found with
    | some mac => txEthpkt board searched pkt ethertypeIp mac
    | none => freePkt searched pkt

/-! ### `udpproto.c` -/

/-- `new_udppkt`, taken to return the packet it allocates. -/
def newUdppkt (board : Board) (world : World) (len : Nat) : World × Nat :=
  let (allocated, pkt) := newIppkt board world (len + udpHeadersize)
  (allocated.modifyPkt pkt (·.strip 8), pkt)

/-- The header `tx_udp` puts before the payload. -/
def udpHeader (sport dport : BitVec 32) (pkt : NetPacket) : NetPacket :=
  let grown := pkt.grow udpHeadersize
  grown.putAll 0
    [octet sport 1, octet sport 0, octet dport 1, octet dport 0,
      octet grown.pLength 1, octet grown.pLength 0, 0, 0]

def txUdp (board : Board) (world : World) (pkt : Nat) (dest sport dport : BitVec 32) : World :=
  txIppkt board (world.modifyPkt pkt (udpHeader sport dport)) pkt ipprotoUdp defaultip dest

/-- `new_udppkt`, the payload written to `p_user`, then `tx_udp`. -/
def sendUdp (board : Board) (world : World) (payload : List Byte) (dest sport dport : BitVec 32) :
    World :=
  let (allocated, pkt) := newUdppkt board world payload.length
  txUdp board (allocated.modifyPkt pkt (·.putAll 0 payload)) pkt dest sport dport

/-! ### `icmp.c` -/

def newIcmp (board : Board) (world : World) (ln : Nat) : World × Nat := newIppkt board world ln

/-- Fill in the checksum of an ICMP message of `len` bytes. -/
def icmpChecksum (len : Nat) (pkt : NetPacket) : NetPacket :=
  let cksum := ipcksum len fun index => pkt.get index
  pkt.putAll 2 [octet cksum 1, octet cksum 0]

/-- The body of an echo reply: a copy of `pktln` bytes of the request with the
type, code and checksum replaced. -/
def echoReply (request : NetPacket) (pktln : Nat) (pkt : NetPacket) : NetPacket :=
  icmpChecksum pkt.pLength.toNat
    ((pkt.putAll 0 ((List.range pktln).map fun index : Nat => request.get index)).putAll 0
      [icmpEchoreply, 0, 0, 0])

def icmpReply (board : Board) (world : World) (ipaddr : BitVec 32) (icmpRequest : Nat) : World :=
  let request := world.pkt icmpRequest
  let pktln : BitVec 32 := if request.pLength.slt 8 then 8 else request.pLength
  if request.get 0 ≠ icmpPing then world
  else if (1024#32).sle pktln then world
  else
    let (allocated, pkt) := newIcmp board world pktln.toNat
    txIppkt board (allocated.modifyPkt pkt (echoReply request pktln.toNat)) pkt ipprotoIcmp
      defaultip ipaddr

/-- The body of a ping. -/
def echoRequest (icmppktId : BitVec 32) (pkt : NetPacket) : NetPacket :=
  { icmpChecksum 8 (pkt.putAll 0
      [icmpPing, 0, 0, 0, octet icmppktId 3, octet icmppktId 2, octet icmppktId 1,
        octet icmppktId 0]) with pLength := 8 }

def nextIcmppktId (icmppktId : BitVec 32) : BitVec 32 :=
  icmppktId + bigPrime + (bigPrime <<< 2)

def icmpSendPing (board : Board) (world : World) (pingIpAddr : BitVec 32) : World :=
  let (allocated, pkt) := newIcmp board world 8
  let numbered := { allocated with icmppktId := nextIcmppktId allocated.icmppktId }
  txIppkt board (numbered.modifyPkt pkt (echoRequest numbered.icmppktId)) pkt ipprotoIcmp
    defaultip pingIpAddr

end ZipVersa.Net
