import ZipVersa.Net.Stack

/-! A datagram built by `new_udppkt`, `tx_udp`, `tx_ippkt` and `tx_ethpkt` is
read back by the reception chain. The builders write headers downwards from
the payload, so each layer is described by the list of bytes it puts before
the list the previous layer left at `p_user`. -/

set_option autoImplicit false

namespace ZipVersa.Net

open Lib

/-! ### Bytes at `p_user` -/

namespace NetPacket

/-- The memory at `p_user` starts with `bytes`; what follows is not said. -/
def Begins (pkt : NetPacket) (bytes : List Byte) : Prop :=
  ∀ (offset : Nat) (inside : offset < bytes.length), pkt.get offset = bytes[offset]

theorem Begins.contents {pkt : NetPacket} {bytes : List Byte} (begins : pkt.Begins bytes)
    (length : pkt.pLength.toNat = bytes.length) : pkt.contents = bytes := by
  apply List.ext_getElem
  · simp [NetPacket.contents, length]
  · intro offset left right
    simpa [NetPacket.contents] using begins offset right

theorem Begins.written (pkt : NetPacket) (values : List Byte) :
    (pkt.putAll 0 values).Begins values := by
  intro offset inside
  have stored := putAll_inside pkt 0 values offset inside
  rw [Int.add_zero] at stored
  rw [NetPacket.get, putAll_pUser, stored]

/-- Assignments in the middle of known bytes replace exactly those bytes. -/
theorem Begins.putAll {pkt : NetPacket} {before old after values : List Byte}
    (begins : pkt.Begins (before ++ (old ++ after))) (size : values.length = old.length) :
    (pkt.putAll before.length values).Begins (before ++ (values ++ after)) := by
  intro offset inside
  simp only [List.length_append] at inside
  have known : offset < (before ++ (old ++ after)).length := by
    simp only [List.length_append]
    omega
  by_cases below : offset < before.length
  · rw [NetPacket.get, putAll_pUser, putAll_below _ _ _ _ (by omega)]
    simpa [List.getElem_append, below, NetPacket.get] using begins offset known
  · by_cases within : offset < before.length + values.length
    · have stored := putAll_inside pkt before.length values (offset - before.length) (by omega)
      rw [NetPacket.get, putAll_pUser]
      rw [show pkt.pUser + (offset : Int) =
        pkt.pUser + (before.length : Int) + ((offset - before.length : Nat) : Int) by omega, stored]
      simp [List.getElem_append, below, show offset - before.length < values.length by omega]
    · rw [NetPacket.get, putAll_pUser, putAll_above _ _ _ _ (by omega)]
      have kept := begins offset known
      simp only [NetPacket.get] at kept
      rw [kept]
      simp [List.getElem_append, below, size,
        show ¬ offset - before.length < old.length by omega]

/-- A header written where `grow` made room stands before the old bytes. -/
theorem Begins.header {pkt : NetPacket} {bytes : List Byte} (begins : pkt.Begins bytes)
    (header : List Byte) :
    ((pkt.grow header.length).putAll 0 header).Begins (header ++ bytes) := by
  let room := (List.range header.length).map fun offset : Nat =>
    (pkt.grow header.length).get offset
  have roomy : (pkt.grow header.length).Begins ([] ++ (room ++ bytes)) := by
    intro offset inside
    by_cases new : offset < header.length
    · simp [room, new]
    · have old := begins (offset - header.length) (by simp [room] at inside; omega)
      simp only [NetPacket.get, NetPacket.grow] at old ⊢
      rw [show pkt.pUser - (header.length : Int) + (offset : Int) =
        pkt.pUser + ((offset - header.length : Nat) : Int) by omega, old]
      simp [room, List.getElem_append, new]
  have written : ((pkt.grow header.length).putAll (([] : List Byte).length : Int) header).Begins
      ([] ++ (header ++ bytes)) := roomy.putAll (by simp [room])
  simpa using written

theorem Begins.strip {pkt : NetPacket} {header bytes : List Byte}
    (begins : pkt.Begins (header ++ bytes)) {size : BitVec 32}
    (sized : size.toNat = header.length) : (pkt.strip size).Begins bytes := by
  intro offset inside
  have shifted := begins (header.length + offset) (by simp; omega)
  simp only [NetPacket.get, NetPacket.strip, sized] at shifted ⊢
  rw [show pkt.pUser + (header.length : Int) + (offset : Int) =
    pkt.pUser + ((header.length + offset : Nat) : Int) by omega, shifted]
  simp

end NetPacket

/-! ### The layers -/

/-- The UDP header as `tx_udp` writes it before a datagram of `length` bytes,
header included. -/
def udpHeaderBytes (sport dport length : BitVec 32) : List Byte :=
  [octet sport 1, octet sport 0, octet dport 1, octet dport 0,
    octet length 1, octet length 0, 0, 0]

/-- The IP header as `ip_set` leaves it, checksum included. -/
def ipHeaderBytes (length pktid subproto src dest cksum : BitVec 32) : List Byte :=
  [0x45, 0x00, octet length 1, octet length 0, octet pktid 1, octet pktid 0,
    0x00, 0x00, 0x80, octet subproto 0, octet cksum 1, octet cksum 0,
    octet src 3, octet src 2, octet src 1, octet src 0,
    octet dest 3, octet dest 2, octet dest 1, octet dest 0]

def ethHeaderBytes (ethtype : BitVec 32) (mac : BitVec 64) : List Byte :=
  [octet mac 5, octet mac 4, octet mac 3, octet mac 2, octet mac 1, octet mac 0,
    octet ethtype 1, octet ethtype 0]

theorem udpHeader_begins {pkt : NetPacket} {bytes : List Byte} (begins : pkt.Begins bytes)
    (sport dport : BitVec 32) :
    (udpHeader sport dport pkt).Begins
      (udpHeaderBytes sport dport (pkt.grow udpHeadersize).pLength ++ bytes) := by
  have written := begins.header
    (udpHeaderBytes sport dport (pkt.grow udpHeadersize).pLength)
  rw [show (udpHeaderBytes sport dport (pkt.grow udpHeadersize).pLength).length =
    udpHeadersize from rfl] at written
  exact written

theorem ethHeader_begins {pkt : NetPacket} {bytes : List Byte} (begins : pkt.Begins bytes)
    (ethtype : BitVec 32) (mac : BitVec 64) :
    (ethHeader ethtype mac pkt).Begins (ethHeaderBytes ethtype mac ++ bytes) := by
  have written := begins.header (ethHeaderBytes ethtype mac)
  rw [show (ethHeaderBytes ethtype mac).length = ethHeadersize from rfl] at written
  exact written

/-- `ip_set` writes its header with a zero checksum first and then overwrites
the two checksum bytes. -/
theorem ipSet_begins {pkt : NetPacket} {bytes : List Byte} (begins : pkt.Begins bytes)
    (pktid subproto src dest : BitVec 32) :
    ∃ cksum : BitVec 32, (ipSet pktid subproto src dest (pkt.grow ipHeadersize)).Begins
      (ipHeaderBytes (pkt.grow ipHeadersize).pLength pktid subproto src dest cksum ++ bytes) := by
  have unsummed := begins.header
    (ipHeaderBytes (pkt.grow ipHeadersize).pLength pktid subproto src dest 0)
  rw [show (ipHeaderBytes (pkt.grow ipHeadersize).pLength pktid subproto src dest 0).length =
    ipHeadersize from rfl] at unsummed
  generalize pkt.grow ipHeadersize = grown at unsummed ⊢
  have zeros : (grown.putAll 0 (ipHeaderBytes grown.pLength pktid subproto src dest 0)).Begins
      ([0x45, 0x00, octet grown.pLength 1, octet grown.pLength 0, octet pktid 1, octet pktid 0,
        0x00, 0x00, 0x80, octet subproto 0] ++ ([0x00, 0x00] ++
        ([octet src 3, octet src 2, octet src 1, octet src 0,
          octet dest 3, octet dest 2, octet dest 1, octet dest 0] ++ bytes))) := unsummed
  let cksum := ipcksum ipHeadersize fun index =>
    (grown.putAll 0 (ipHeaderBytes grown.pLength pktid subproto src dest 0)).get index
  have summed := zeros.putAll (show [octet cksum 1, octet cksum 0].length = 2 from rfl)
  exact ⟨cksum, summed⟩

/-! ### Parsing -/

/-- What the reception chain says about a frame that carries a datagram. -/
structure UdpParsed (received : NetPacket) (payload : List Byte) (src dest : BitVec 32)
    (sport dport : BitVec 16) : Prop where
  ethtype : ethpktEthtype received = ethertypeIp
  source : ippktSrc (rxEthpkt received) = src
  destination : ippktDst (rxEthpkt received) = dest
  subproto : ippktSubproto (rxEthpkt received) = ipprotoUdp
  sourcePort : udpSport (rxIppkt (rxEthpkt received)) = sport.setWidth 32
  destinationPort : udpDport (rxIppkt (rxEthpkt received)) = dport.setWidth 32
  length : (rxChain received).pLength = BitVec.ofNat 32 payload.length
  contents : (rxChain received).contents = payload

theorem ippktHeaderBytes_begins {pkt : NetPacket} {rest : List Byte}
    (begins : pkt.Begins (0x45 :: rest)) : ippktHeaderBytes pkt = 20 := by
  have first : pkt.get 0 = 0x45 := begins 0 (by simp)
  rw [ippktHeaderBytes, first]
  decide

theorem of_length_six {stations : List Byte} (six : stations.length = 6) :
    ∃ first second third fourth fifth sixth,
      stations = [first, second, third, fourth, fifth, sixth] := by
  rcases stations with _ | ⟨first, _ | ⟨second, _ | ⟨third, _ | ⟨fourth, _ | ⟨fifth, _ |
    ⟨sixth, _ | ⟨seventh, rest⟩⟩⟩⟩⟩⟩⟩ <;> simp_all

/-- The datagram's own length, where the frame reaches to its end. -/
theorem rxChain_length {received : NetPacket} {count : Nat} (short : count + 8 < 65536)
    (header : ippktHeaderBytes (rxEthpkt received) = 20)
    (field : udpLength (rxIppkt (rxEthpkt received)) = BitVec.ofNat 32 (count + 8))
    (whole : count + 36 ≤ received.pLength.toNat) :
    (rxChain received).pLength = BitVec.ofNat 32 count := by
  have fieldNat : (BitVec.ofNat 32 (count + 8)).toNat = count + 8 := by
    rw [BitVec.toNat_ofNat]
    omega
  have remaining : (rxIppkt (rxEthpkt received)).pLength.toNat =
      received.pLength.toNat - 28 := by
    have bound := received.pLength.isLt
    rw [rxIppkt, header]
    simp only [rxEthpkt, NetPacket.strip, BitVec.toNat_sub]
    simp
    omega
  apply BitVec.eq_of_toNat_eq
  simp only [rxChain, rxUdp, field]
  rw [BitVec.toNat_ofNat, Nat.mod_eq_of_lt (show count < 2 ^ 32 by omega)]
  split
  · next empty =>
    have none : count + 8 ≤ 8 := by
      rw [BitVec.le_def, fieldNat] at empty
      exact empty
    simp
    omega
  · split
    · rw [BitVec.toNat_sub, fieldNat]
      simp
      omega
    · next shorter =>
      have last : ¬ count + 8 < received.pLength.toNat - 28 := by
        simpa only [BitVec.lt_def, fieldNat, remaining] using shorter
      rw [BitVec.toNat_sub, remaining]
      simp
      omega

theorem udpParsed_of_begins {received : NetPacket} {stations payload : List Byte}
    {iplength pktid src dest cksum : BitVec 32} {sport dport : BitVec 16}
    (six : stations.length = 6) (short : payload.length + 8 < 65536)
    (begins : received.Begins (stations ++ [octet ethertypeIp 1, octet ethertypeIp 0] ++
      (ipHeaderBytes iplength pktid ipprotoUdp src dest cksum ++
        (udpHeaderBytes (sport.setWidth 32) (dport.setWidth 32)
          (BitVec.ofNat 32 (payload.length + 8)) ++ payload))))
    (whole : payload.length + 36 ≤ received.pLength.toNat) :
    UdpParsed received payload src dest sport dport := by
  have ip := begins.strip (show (8#32).toNat = _ by simp [six])
  have header : ippktHeaderBytes (rxEthpkt received) = 20 := ippktHeaderBytes_begins ip
  have udp : (rxIppkt (rxEthpkt received)).Begins
      (udpHeaderBytes (sport.setWidth 32) (dport.setWidth 32)
        (BitVec.ofNat 32 (payload.length + 8)) ++ payload) := by
    rw [rxIppkt, header]
    exact ip.strip rfl
  have data : (rxChain received).Begins payload :=
    udp.strip (show (8#32).toNat = (udpHeaderBytes _ _ _).length from rfl)
  have field : udpLength (rxIppkt (rxEthpkt received)) =
      BitVec.ofNat 32 (payload.length + 8) := by
    have high := udp 4 (by simp [udpHeaderBytes])
    have low := udp 5 (by simp [udpHeaderBytes])
    exact (congrArg₂ be16 high low).trans (be16_octets_of_lt _ (by
      rw [BitVec.toNat_ofNat, Nat.mod_eq_of_lt (Nat.lt_trans short (by decide))]
      exact short))
  have length := rxChain_length short header field whole
  refine ⟨?_, ?_, ?_, ?_, ?_, ?_, length, data.contents ?_⟩
  · obtain ⟨first, second, third, fourth, fifth, sixth, rfl⟩ := of_length_six six
    have high := begins 6 (by simp)
    have low := begins 7 (by simp)
    exact (congrArg₂ be16 high low).trans (be16_octets_of_lt _ (by decide))
  · rw [← be32_octets src]
    exact congr (congr (congrArg₂ be32 (ip 12 (by simp [ipHeaderBytes]))
      (ip 13 (by simp [ipHeaderBytes]))) (ip 14 (by simp [ipHeaderBytes])))
      (ip 15 (by simp [ipHeaderBytes]))
  · rw [← be32_octets dest]
    exact congr (congr (congrArg₂ be32 (ip 16 (by simp [ipHeaderBytes]))
      (ip 17 (by simp [ipHeaderBytes]))) (ip 18 (by simp [ipHeaderBytes])))
      (ip 19 (by simp [ipHeaderBytes]))
  · have subproto : (rxEthpkt received).get 9 = octet ipprotoUdp 0 :=
      ip 9 (by simp [ipHeaderBytes])
    rw [ippktSubproto, subproto]
    decide
  · rw [← be16_octets sport]
    exact congrArg₂ be16 (udp 0 (by simp [udpHeaderBytes])) (udp 1 (by simp [udpHeaderBytes]))
  · rw [← be16_octets dport]
    exact congrArg₂ be16 (udp 2 (by simp [udpHeaderBytes])) (udp 3 (by simp [udpHeaderBytes]))
  · rw [length, BitVec.toNat_ofNat]
    omega

/-! ### Sending -/

/-- A lookup that finds the address changes nothing but the table, and what it
finds depends on the table and the router's address alone. -/
theorem arpLookup_found {board : Board} {world other : World} {ipaddr : BitVec 32}
    {mac : BitVec 64} (found : (arpLookup board world ipaddr).2 = some mac)
    (table : other.arpTable = world.arpTable) (router : other.routerMacAddr = world.routerMacAddr) :
    ∃ scanned, arpLookup board other ipaddr = ({ other with arpTable := scanned }, some mac) := by
  have given : other = { other with
      arpTable := world.arpTable, routerMacAddr := world.routerMacAddr } := by
    rw [← table, ← router]
  rw [given]
  unfold arpLookup at found ⊢
  dsimp only
  split
  · next direct =>
    rw [if_pos direct] at found
    exact ⟨world.arpTable, congrArg (Prod.mk _) found⟩
  · next indirect =>
    rw [if_neg indirect] at found
    rcases scan : arpScan ipaddr 0 world.arpTable with ⟨scanned, hit⟩
    rw [scan] at found
    cases hit with
    | none => cases found
    | some entry => exact ⟨scanned, congrArg (Prod.mk _) found⟩

@[simp] theorem World.modifyPkt_cells (world : World) (pkt : Nat)
    (change : NetPacket → NetPacket) :
    (world.modifyPkt pkt change).arena.cells pkt = (world.arena.cells pkt).map change := by
  simp [World.modifyPkt, Arena.modify]

/-- A new IP packet leaves room for both headers. -/
theorem newIppkt_eq (board : Board) (world : World) (len : Nat) :
    ∃ arena, newIppkt board world len = ({ world with arena }, world.arena.next) ∧
      arena.cells world.arena.next = some {
        pUsageCount := 1
        pRawlen := BitVec.ofNat 32 (len + 28)
        pLength := BitVec.ofNat 32 len
        pRaw := board.mallocBytes
        pUser := 28 } := by
  refine ⟨_, rfl, ?_⟩
  simp only [World.modifyPkt, Arena.modify, Arena.alloc, Function.update_self, Option.map_some,
    Option.some.injEq]
  simp only [NetPacket.strip, NetPacket.mk.injEq, true_and]
  refine ⟨?_, rfl⟩
  apply BitVec.eq_of_toNat_eq
  simp only [BitVec.toNat_sub, BitVec.toNat_ofNat]
  rw [show (8 : BitVec 32).toNat = 8 from rfl, show (20 : BitVec 32).toNat = 20 from rfl]
  omega

/-- The packet `new_udppkt` returns. -/
def freshUdp (board : Board) (len : Nat) : NetPacket where
  pUsageCount := 1
  pRawlen := BitVec.ofNat 32 (len + 36)
  pLength := BitVec.ofNat 32 len
  pRaw := board.mallocBytes
  pUser := 36

theorem newUdppkt_eq (board : Board) (world : World) (len : Nat) :
    ∃ arena, newUdppkt board world len = ({ world with arena }, world.arena.next) ∧
      arena.cells world.arena.next = some (freshUdp board len) := by
  obtain ⟨arena, built, cell⟩ := newIppkt_eq board world (len + udpHeadersize)
  have shorter : BitVec.ofNat 32 (len + udpHeadersize) - 8 = BitVec.ofNat 32 len := by
    rw [BitVec.ofNat_add]
    exact BitVec.add_sub_cancel _ _
  rw [newUdppkt, built]
  refine ⟨_, rfl, ?_⟩
  change (({ world with arena }).modifyPkt world.arena.next (·.strip 8)).arena.cells _ = _
  rw [World.modifyPkt_cells, cell, Option.map_some, NetPacket.strip, shorter]
  rfl

/-- The frame handed to `tx_pkt`. -/
def udpFrame (board : Board) (world : World) (payload : List Byte)
    (dest sport dport : BitVec 32) (mac : BitVec 64) : NetPacket :=
  ethHeader ethertypeIp mac (ipSet (world.ipPktid + bigPrime) ipprotoUdp defaultip dest
    ((udpHeader sport dport ((freshUdp board payload.length).putAll 0 payload)).grow ipHeadersize))

/-- The packet as each builder leaves it, in order: `new_udppkt`, the payload,
`tx_udp`, `tx_ippkt`, `tx_ethpkt`. -/
def udpStages (board : Board) (world : World) (payload : List Byte)
    (dest sport dport : BitVec 32) (mac : BitVec 64) : List NetPacket :=
  let fresh := freshUdp board payload.length
  let filled := fresh.putAll 0 payload
  let udp := udpHeader sport dport filled
  let ip := ipSet (world.ipPktid + bigPrime) ipprotoUdp defaultip dest (udp.grow ipHeadersize)
  [fresh, filled, udp, ip, udpFrame board world payload dest sport dport mac]

theorem ipSet_pUser (pktid subproto src dest : BitVec 32) (pkt : NetPacket) :
    (ipSet pktid subproto src dest pkt).pUser = pkt.pUser := by
  simp only [ipSet, NetPacket.putAll_pUser]

theorem ipSet_pLength (pktid subproto src dest : BitVec 32) (pkt : NetPacket) :
    (ipSet pktid subproto src dest pkt).pLength = pkt.pLength := by
  simp only [ipSet, NetPacket.putAll_pLength]

theorem udpStages_pUser (board : Board) (world : World) (payload : List Byte)
    (dest sport dport : BitVec 32) (mac : BitVec 64) :
    (udpStages board world payload dest sport dport mac).map NetPacket.pUser =
      [36, 36, 28, 8, 0] := by
  simp only [udpStages, List.map_cons, List.map_nil, udpFrame, ethHeader, udpHeader, ipSet_pUser,
    NetPacket.putAll_pUser, NetPacket.grow, freshUdp]
  rfl

/-- With the address resolved, `tx_ippkt` passes the packet with both headers to `tx_pkt` and
has done nothing else visible. -/
theorem txIppkt_sends {board : Board} {world : World} {pkt : Nat} {packet : NetPacket}
    {dest : BitVec 32} {mac : BitVec 64} (subproto src : BitVec 32)
    (cell : world.arena.cells pkt = some packet) (room : ¬ packet.pUser < 20 + 8)
    (resolved : (arpLookup board world dest).2 = some mac) :
    ∃ built : World, txIppkt board world pkt subproto src dest = txPkt board built pkt ∧
      built.arena.cells pkt = some (ethHeader ethertypeIp mac
        (ipSet (world.ipPktid + bigPrime) subproto src dest (packet.grow ipHeadersize))) ∧
      built.txReads = world.txReads ∧ built.sent = world.sent := by
  have room' : ¬ (world.pkt pkt).pUser < 20 + 8 := by
    rw [World.pkt, cell]
    exact room
  let headed := ({ world with ipPktid := world.ipPktid + bigPrime } : World).modifyPkt pkt
    fun packet => ipSet (world.ipPktid + bigPrime) subproto src dest (packet.grow ipHeadersize)
  obtain ⟨scanned, lookup⟩ : ∃ scanned, arpLookup board headed dest =
      ({ headed with arpTable := scanned }, some mac) := arpLookup_found resolved rfl rfl
  refine ⟨({ headed with arpTable := scanned } : World).modifyPkt pkt (ethHeader ethertypeIp mac),
    ?_, ?_, rfl, rfl⟩
  · have found : arpLookup board
        (({ world with ipPktid := world.ipPktid + bigPrime } : World).modifyPkt pkt fun packet =>
          ipSet (world.ipPktid + bigPrime) subproto src dest (packet.grow ipHeadersize)) dest =
        ({ headed with arpTable := scanned }, some mac) := lookup
    simp only [txIppkt, if_neg room', found]
    rfl
  · simp [headed, cell]

/-- `tx_udp` passes `udpFrame` to `tx_pkt`. -/
theorem sendUdp_eq_txPkt {board : Board} {world : World} {dest : BitVec 32} {mac : BitVec 64}
    (payload : List Byte) (sport dport : BitVec 32)
    (resolved : (arpLookup board world dest).2 = some mac) :
    ∃ built : World, sendUdp board world payload dest sport dport =
        txPkt board built world.arena.next ∧
      built.arena.cells world.arena.next =
        some (udpFrame board world payload dest sport dport mac) ∧
      built.txReads = world.txReads ∧ built.sent = world.sent := by
  obtain ⟨arena, allocated, fresh⟩ := newUdppkt_eq board world payload.length
  generalize address : world.arena.next = pkt at *
  let udp := (({ world with arena } : World).modifyPkt pkt (·.putAll 0 payload)).modifyPkt pkt
    (udpHeader sport dport)
  have udpCell : udp.arena.cells pkt =
      some (udpHeader sport dport ((freshUdp board payload.length).putAll 0 payload)) := by
    simp [udp, fresh]
  have room : ¬ (udpHeader sport dport ((freshUdp board payload.length).putAll 0 payload)).pUser <
      20 + 8 := by
    simp [udpHeader, NetPacket.grow, freshUdp, udpHeadersize]
  obtain ⟨scanned, lookup⟩ : ∃ scanned, arpLookup board udp dest =
      ({ udp with arpTable := scanned }, some mac) := arpLookup_found resolved rfl rfl
  have started : sendUdp board world payload dest sport dport =
      txIppkt board udp pkt ipprotoUdp defaultip dest := by
    simp only [sendUdp, allocated]
    rfl
  rw [started]
  exact txIppkt_sends ipprotoUdp defaultip udpCell room (congrArg Prod.snd lookup)

/-- `tx_pkt` on a packet: copied out at once, or kept for the next interrupt. -/
theorem txPkt_result {board : Board} {world : World} {pkt : Nat} {frame : NetPacket}
    (cell : world.arena.cells pkt = some frame) :
    if board.txBusy world.txReads then
      (txPkt board world pkt).waitingPkt = some pkt ∧
        (txPkt board world pkt).arena.cells pkt = some frame
    else (txPkt board world pkt).sent = world.sent ++ [frame.contents] := by
  split
  · next busy =>
    simp only [txPkt, busy, if_true, txBusy]
    split
    · exact ⟨rfl, cell⟩
    · next waiting pending =>
      split
      · next same => exact ⟨by rw [same]; exact pending, cell⟩
      · next other =>
        exact ⟨rfl, (Arena.release_cells_of_ne usageLens other).trans cell⟩
  · next idle =>
    simp [txPkt, idle, freePkt, World.pkt, cell]

theorem udpFrame_begins (board : Board) (world : World) (payload : List Byte)
    (dest sport dport : BitVec 32) (mac : BitVec 64) :
    ∃ iplength cksum : BitVec 32,
      (udpFrame board world payload dest sport dport mac).Begins
        (ethHeaderBytes ethertypeIp mac ++
          (ipHeaderBytes iplength (world.ipPktid + bigPrime) ipprotoUdp defaultip dest cksum ++
            (udpHeaderBytes sport dport (BitVec.ofNat 32 (payload.length + 8)) ++ payload))) := by
  let filled := (freshUdp board payload.length).putAll 0 payload
  have start : filled.Begins payload := by
    intro offset inside
    have stored := NetPacket.putAll_inside (freshUdp board payload.length) 0 payload offset inside
    simpa [filled, NetPacket.get] using stored
  have length : (filled.grow udpHeadersize).pLength = BitVec.ofNat 32 (payload.length + 8) := by
    simp [filled, NetPacket.grow, freshUdp, udpHeadersize, BitVec.ofNat_add]
  have udp := udpHeader_begins start sport dport
  rw [length] at udp
  obtain ⟨cksum, ip⟩ := ipSet_begins udp (world.ipPktid + bigPrime) ipprotoUdp defaultip dest
  exact ⟨_, cksum, ethHeader_begins ip ethertypeIp mac⟩

theorem udpFrame_pLength (board : Board) (world : World) (payload : List Byte)
    (dest sport dport : BitVec 32) (mac : BitVec 64) :
    (udpFrame board world payload dest sport dport mac).pLength =
      BitVec.ofNat 32 (payload.length + 36) := by
  simp only [udpFrame, ethHeader, udpHeader, NetPacket.putAll_pLength, NetPacket.grow,
    ipSet_pLength, freshUdp, ethHeadersize, ipHeadersize, udpHeadersize, ← BitVec.ofNat_add]

/-- Whatever the payload, ports and address, the frame `tx_udp` transmits (or
leaves pending when the transmitter is busy) parses back to them, `p_user`
having stayed at or above `p_raw` at every stage. The six station bytes may be
replaced on the way, as the hardware does, and padding may follow. -/
theorem sendUdp_parsed (board : Board) (world : World) (payload : List Byte)
    (dest : BitVec 32) (sport dport : BitVec 16) (mac : BitVec 64)
    (resolved : (arpLookup board world dest).2 = some mac)
    (fits : payload.length + 28 < 65536) :
    ∃ frame : NetPacket,
      (udpStages board world payload dest (sport.setWidth 32) (dport.setWidth 32) mac).getLast? =
        some frame ∧
      (∀ stage ∈ udpStages board world payload dest (sport.setWidth 32) (dport.setWidth 32) mac,
        0 ≤ stage.pUser) ∧
      (if board.txBusy world.txReads then
        (sendUdp board world payload dest (sport.setWidth 32) (dport.setWidth 32)).waitingPkt =
            some world.arena.next ∧
          (sendUdp board world payload dest (sport.setWidth 32)
            (dport.setWidth 32)).arena.cells world.arena.next = some frame
      else
        (sendUdp board world payload dest (sport.setWidth 32) (dport.setWidth 32)).sent =
          world.sent ++ [frame.contents]) ∧
      ∀ (received : NetPacket) (stations : List Byte), stations.length = 6 →
        received.Begins (stations ++ frame.contents.drop 6) →
        frame.contents.length ≤ received.pLength.toNat →
        UdpParsed received payload defaultip dest sport dport := by
  refine ⟨udpFrame board world payload dest (sport.setWidth 32) (dport.setWidth 32) mac,
    rfl, ?_, ?_, ?_⟩
  · intro stage member
    have users := udpStages_pUser board world payload dest (sport.setWidth 32)
      (dport.setWidth 32) mac
    have user : stage.pUser ∈ [36, 36, 28, 8, (0 : Int)] :=
      users ▸ List.mem_map_of_mem member
    simp only [List.mem_cons, List.not_mem_nil, or_false] at user
    omega
  · obtain ⟨built, sends, cell, reads, sent⟩ := sendUdp_eq_txPkt payload (sport.setWidth 32)
      (dport.setWidth 32) resolved
    rw [sends, ← reads, ← sent]
    exact txPkt_result cell
  · intro received stations six begins whole
    obtain ⟨iplength, cksum, frameBegins⟩ := udpFrame_begins board world payload dest
      (sport.setWidth 32) (dport.setWidth 32) mac
    have contents := frameBegins.contents (by
      rw [udpFrame_pLength, BitVec.toNat_ofNat]
      simp [ethHeaderBytes, ipHeaderBytes, udpHeaderBytes]
      omega)
    rw [contents] at begins whole
    have layers : received.Begins (stations ++ [octet ethertypeIp 1, octet ethertypeIp 0] ++
        (ipHeaderBytes iplength (world.ipPktid + bigPrime) ipprotoUdp defaultip dest cksum ++
          (udpHeaderBytes (sport.setWidth 32) (dport.setWidth 32)
            (BitVec.ofNat 32 (payload.length + 8)) ++ payload))) := by
      simpa [ethHeaderBytes] using begins
    refine udpParsed_of_begins six (by omega) layers ?_
    simp [ethHeaderBytes, ipHeaderBytes, udpHeaderBytes] at whole
    omega

/-- An idle board that knows one station of its network. -/
def neighbourWorld : World where
  arena := { cells := fun _ => none, next := 0, freed := [] }
  waitingPkt := none
  ipPktid := 0
  icmppktId := 0
  arpTable := [{ valid := true, age := 3, ipaddr := 0xc0a80f02, mac := 0x0123456789ab }]
  routerMacAddr := 0
  txReads := 0
  sent := []
  device := {}
  fftOps := []

theorem sendUdp_parsed_neighbour :
    ∃ frame : NetPacket,
      (sendUdp { txBusy := fun _ => false, mallocBytes := fun _ => 0xa5, staleEid := 0 }
        neighbourWorld [0x10, 0x20, 0x30] 0xc0a80f02 0x1a7f 0x0401).sent = [frame.contents] ∧
      ∀ received : NetPacket, received.Begins ([1, 2, 3, 4, 5, 6] ++ frame.contents.drop 6) →
        frame.contents.length ≤ received.pLength.toNat →
        UdpParsed received [0x10, 0x20, 0x30] defaultip 0xc0a80f02 0x1a7f 0x0401 := by
  obtain ⟨frame, -, -, sent, parsed⟩ := sendUdp_parsed
    { txBusy := fun _ => false, mallocBytes := fun _ => 0xa5, staleEid := 0 } neighbourWorld
    [0x10, 0x20, 0x30] 0xc0a80f02 0x1a7f 0x0401 0x0123456789ab (by decide) (by decide)
  exact ⟨frame, sent, fun received => parsed received _ rfl⟩

end ZipVersa.Net
