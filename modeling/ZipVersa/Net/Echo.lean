import ZipVersa.Net.Checksum
import ZipVersa.Net.RoundTrip

/-! The echo reply of `icmp_reply`: when its checksum verifies, and when it is
the reply to what has been asked. -/

set_option autoImplicit false

namespace ZipVersa.Net

open Lib

/-! ### The message -/

/-- The packet `new_icmp` returns. -/
def freshIcmp (board : Board) (len : Nat) : NetPacket where
  pUsageCount := 1
  pRawlen := BitVec.ofNat 32 (len + 28)
  pLength := BitVec.ofNat 32 len
  pRaw := board.mallocBytes
  pUser := 28

theorem newIcmp_eq (board : Board) (world : World) (len : Nat) :
    ∃ arena, newIcmp board world len = ({ world with arena }, world.arena.next) ∧
      arena.cells world.arena.next = some (freshIcmp board len) :=
  newIppkt_eq board world len

/-- `pktln`. -/
def replyLength (request : NetPacket) : BitVec 32 :=
  if request.pLength.slt 8 then 8 else request.pLength

/-- The packet `icmp_reply` hands to `tx_ippkt`. -/
def replyPacket (board : Board) (request : NetPacket) : NetPacket :=
  echoReply request (replyLength request).toNat (freshIcmp board (replyLength request).toNat)

theorem replyLength_bounds (request : NetPacket) :
    8 ≤ (replyLength request).toNat ∧
      ((1024#32).sle (replyLength request) = true ↔ 1024 ≤ (replyLength request).toNat) := by
  have bound := request.pLength.isLt
  unfold replyLength
  split
  · exact ⟨by decide, by decide⟩
  · next long =>
    simp only [BitVec.slt, BitVec.sle, BitVec.toInt_eq_toNat_cond, decide_eq_true_eq] at long ⊢
    simp at long ⊢
    omega

theorem icmpReply_eq (board : Board) (world : World) (ipaddr : BitVec 32) (icmpRequest : Nat) :
    icmpReply board world ipaddr icmpRequest =
      if (world.pkt icmpRequest).get 0 ≠ icmpPing then world
      else if (1024#32).sle (replyLength (world.pkt icmpRequest)) then world
      else
        let reply := newIcmp board world (replyLength (world.pkt icmpRequest)).toNat
        txIppkt board (reply.1.modifyPkt reply.2 (echoReply (world.pkt icmpRequest)
          (replyLength (world.pkt icmpRequest)).toNat)) reply.2 ipprotoIcmp defaultip ipaddr := rfl

theorem icmpReply_builds {board : Board} {world : World} {icmpRequest : Nat}
    (ipaddr : BitVec 32) (ping : (world.pkt icmpRequest).get 0 = icmpPing)
    (small : (replyLength (world.pkt icmpRequest)).toNat < 1024) :
    ∃ arena, icmpReply board world ipaddr icmpRequest =
        txIppkt board { world with arena } world.arena.next ipprotoIcmp defaultip ipaddr ∧
      arena.cells world.arena.next = some (replyPacket board (world.pkt icmpRequest)) := by
  obtain ⟨arena, allocated, fresh⟩ :=
    newIcmp_eq board world (replyLength (world.pkt icmpRequest)).toNat
  have fits : ¬ (1024#32).sle (replyLength (world.pkt icmpRequest)) = true := by
    rw [(replyLength_bounds _).2]
    omega
  refine ⟨arena.modify world.arena.next (echoReply (world.pkt icmpRequest)
    (replyLength (world.pkt icmpRequest)).toNat), ?_, ?_⟩
  · rw [icmpReply_eq, if_neg (not_not.mpr ping), if_neg fits, allocated]
    rfl
  · simp [Arena.modify, fresh, replyPacket]

/-- A ping that is too long is not answered. -/
theorem icmpReply_refuses {board : Board} {world : World} {icmpRequest : Nat}
    (ipaddr : BitVec 32) (large : 1024 ≤ (replyLength (world.pkt icmpRequest)).toNat) :
    icmpReply board world ipaddr icmpRequest = world := by
  rw [icmpReply_eq, if_pos ((replyLength_bounds _).2.mpr large), ite_self]

/-- The bytes of the request that the reply repeats. -/
def repeated (request : NetPacket) : List Byte :=
  ((List.range (replyLength request).toNat).map fun index : Nat => request.get index).drop 4

/-- The reply before its checksum is put in. -/
def unsummed (board : Board) (request : NetPacket) : NetPacket :=
  ((freshIcmp board (replyLength request).toNat).putAll 0
    ((List.range (replyLength request).toNat).map fun index : Nat => request.get index)).putAll 0
      [icmpEchoreply, 0, 0, 0]

def replyChecksum (board : Board) (request : NetPacket) : BitVec 32 :=
  ipcksum (replyLength request).toNat fun index => (unsummed board request).get index

variable (board : Board) (request : NetPacket)

theorem repeated_length : (repeated request).length + 4 = (replyLength request).toNat := by
  have bound := (replyLength_bounds request).1
  simp only [repeated, List.length_drop, List.length_map, List.length_range]
  omega

theorem unsummed_begins : (unsummed board request).Begins (0 :: 0 :: 0 :: 0 :: repeated request) := by
  have copied := NetPacket.Begins.written (freshIcmp board (replyLength request).toNat)
    ((List.range (replyLength request).toNat).map fun index : Nat => request.get index)
  have split : (freshIcmp board (replyLength request).toNat).putAll 0
      ((List.range (replyLength request).toNat).map fun index : Nat => request.get index) |>.Begins
      (([] : List Byte) ++ (((List.range (replyLength request).toNat).map
        fun index : Nat => request.get index).take 4 ++ repeated request)) := by
    rw [List.nil_append, repeated, List.take_append_drop]
    exact copied
  have bound := (replyLength_bounds request).1
  have four : [icmpEchoreply, 0, 0, 0].length = (((List.range (replyLength request).toNat).map
      fun index : Nat => request.get index).take 4).length := by
    simp only [List.length_cons, List.length_nil, List.length_take, List.length_map,
      List.length_range]
    omega
  exact split.putAll four

theorem unsummed_buffer :
    buffer (replyLength request).toNat (fun index => (unsummed board request).get index) =
      0 :: 0 :: 0 :: 0 :: repeated request := by
  have begins := unsummed_begins board request
  have length := repeated_length request
  apply List.ext_getElem
  · simp only [buffer, List.length_map, List.length_range, List.length_cons]
    omega
  · intro offset left right
    simpa [buffer] using begins offset right

/-- The memory behind the reply is as `malloc` left it. -/
theorem unsummed_behind : (unsummed board request).get (replyLength request).toNat =
    board.mallocBytes (28 + (replyLength request).toNat) := by
  have bound := (replyLength_bounds request).1
  rw [unsummed, NetPacket.get, NetPacket.putAll_pUser, NetPacket.putAll_pUser,
    NetPacket.putAll_above _ _ _ _ (by simp [freshIcmp]; omega),
    NetPacket.putAll_above _ _ _ _ (by simp [freshIcmp])]
  rfl

theorem replyPacket_pLength : (replyPacket board request).pLength = replyLength request := by
  simp [replyPacket, echoReply, icmpChecksum, freshIcmp]

theorem replyPacket_pUser : (replyPacket board request).pUser = 28 := by
  simp [replyPacket, echoReply, icmpChecksum, freshIcmp]

theorem replyPacket_begins : (replyPacket board request).Begins
    (0 :: 0 :: octet (replyChecksum board request) 1 :: octet (replyChecksum board request) 0 ::
      repeated request) := by
  have zeros : (unsummed board request).Begins
      ([0, 0] ++ ([0, 0] ++ repeated request)) := unsummed_begins board request
  have summed := zeros.putAll (show [octet (replyChecksum board request) 1,
    octet (replyChecksum board request) 0].length = 2 from rfl)
  have same : replyPacket board request = (unsummed board request).putAll 2
      [octet (replyChecksum board request) 1, octet (replyChecksum board request) 0] := by
    have length : (freshIcmp board (replyLength request).toNat).pLength.toNat =
        (replyLength request).toNat := by
      simp [freshIcmp]
    unfold replyPacket echoReply icmpChecksum
    rw [length]
    rfl
  rw [same]
  exact summed

theorem replyPacket_contents : (replyPacket board request).contents =
    0 :: 0 :: octet (replyChecksum board request) 1 :: octet (replyChecksum board request) 0 ::
      repeated request := by
  refine (replyPacket_begins board request).contents ?_
  rw [replyPacket_pLength]
  have length := repeated_length request
  simp only [List.length_cons]
  omega

/-- A reply of odd length verifies if the byte that `malloc` has left behind it
is zero. -/
theorem reply_verifies_iff (small : (replyLength request).toNat < 1024) :
    Verifies (replyPacket board request).contents ↔
      (replyLength request).toNat % 2 = 0 ∨
        board.mallocBytes (28 + (replyLength request).toNat) = 0 := by
  rw [replyPacket_contents, replyChecksum,
    checksum_verifies_iff (unsummed_buffer board request) (by omega), behind,
    unsummed_behind board request]
  split
  · next odd =>
    rw [← BitVec.toNat_inj]
    constructor
    · exact .inr
    · rintro (even | zero)
      · omega
      · exact zero
  · next even =>
    exact ⟨fun _ => .inl (by omega), fun _ => rfl⟩

/-- `ipcksum` on every buffer, with whatever stands behind it, and the checksum
of every echo reply. -/
theorem checksums_hold_iff (len : Nat) (get : Nat → Byte) :
    ((ipcksum len get).toNat = internetChecksum (buffer len get) ↔ MadeUp len get) ∧
    ((∀ other : Nat → Byte, (∀ index < len, other index = get index) →
      ipcksum len other = ipcksum len get) ↔ len % 2 = 0) ∧
    ∀ (board : Board) (world : World) (ipaddr : BitVec 32) (icmpRequest : Nat),
      (world.pkt icmpRequest).get 0 = icmpPing →
      (replyLength (world.pkt icmpRequest)).toNat < 1024 →
      ∃ (arena : Arena NetPacket) (reply : NetPacket),
        icmpReply board world ipaddr icmpRequest =
          txIppkt board { world with arena } world.arena.next ipprotoIcmp defaultip ipaddr ∧
        arena.cells world.arena.next = some reply ∧
        (Verifies reply.contents ↔ (replyLength (world.pkt icmpRequest)).toNat % 2 = 0 ∨
          board.mallocBytes (28 + (replyLength (world.pkt icmpRequest)).toNat) = 0) := by
  refine ⟨ipcksum_eq_iff len get, ipcksum_alone_iff len get, ?_⟩
  intro board world ipaddr icmpRequest ping small
  obtain ⟨arena, builds, cell⟩ := icmpReply_builds ipaddr ping small
  exact ⟨arena, _, builds, cell, reply_verifies_iff board _ small⟩

/-- A ping with one byte of data after the header. -/
def oddPing : NetPacket where
  pUsageCount := 1
  pRawlen := 37
  pLength := 9
  pRaw index := if index = 28 then icmpPing else 0
  pUser := 28

/-- The ping is at address zero of an otherwise empty memory. -/
def oddWorld : World :=
  { neighbourWorld with
    arena :=
      { cells := fun address => if address = 0 then some oddPing else none
        next := 1
        freed := [] } }

def idleBoard : Board := { txBusy := fun _ => false, mallocBytes := fun _ => 0xa5, staleEid := 0 }

/-- `malloc` has left 0xa5 behind the reply. -/
theorem odd_reply_fails :
    ∃ (arena : Arena NetPacket) (reply : NetPacket),
      icmpReply idleBoard oddWorld 0xc0a80f02 0 =
        txIppkt idleBoard { oddWorld with arena } 1 ipprotoIcmp defaultip 0xc0a80f02 ∧
      arena.cells 1 = some reply ∧ ¬ Verifies reply.contents := by
  obtain ⟨arena, reply, built, cell, verifies⟩ := (checksums_hold_iff 9 fun index => oddPing.get index).2.2
    idleBoard oddWorld 0xc0a80f02 0 (by decide) (by decide)
  refine ⟨arena, reply, built, cell, ?_⟩
  rw [verifies]
  decide

/-- A single zero byte with a one behind it. -/
theorem byte_behind_counts :
    (ipcksum 1 fun index => if index = 1 then 1 else 0).toNat ≠
      internetChecksum (buffer 1 fun index => if index = 1 then 1 else 0) := by
  rw [ne_eq, ipcksum_eq_iff]
  unfold MadeUp
  decide

/-! ### The frame -/

/-- The fields of a frame as the board handles it: six bytes of a station, the
type, and what the IP header says. -/
def ipTotalLength (frame : List Byte) : Nat := (be16 (frame.getD 10 0) (frame.getD 11 0)).toNat

def ipHeaderLength (frame : List Byte) : Nat := 4 * ((frame.getD 8 0).toNat % 16)

/-- The ICMP message as the total length delimits it. -/
def icmpMessage (frame : List Byte) : List Byte :=
  (frame.take (8 + ipTotalLength frame)).drop (8 + ipHeaderLength frame)

structure EchoRequest (frame : List Byte) : Prop where
  ethtype : be16 (frame.getD 6 0) (frame.getD 7 0) = ethertypeIp
  subproto : frame.getD 17 0 = 1
  ping : (icmpMessage frame).getD 0 0 = icmpPing
  whole : ipHeaderLength frame + 8 ≤ ipTotalLength frame
  fits : 8 + ipTotalLength frame ≤ frame.length

/-- The reply has the total length of the request, its identifier, its sequence
number and its data. -/
structure Echoes (request reply : List Byte) : Prop where
  totalLength : ipTotalLength reply = ipTotalLength request
  message : (icmpMessage reply).drop 4 = (icmpMessage request).drop 4

/-- The frame handed to `tx_pkt`. -/
def replyFrame (board : Board) (world : World) (request : NetPacket) (ipaddr : BitVec 32)
    (mac : BitVec 64) : NetPacket :=
  ethHeader ethertypeIp mac (ipSet (world.ipPktid + bigPrime) ipprotoIcmp defaultip ipaddr
    ((replyPacket board request).grow ipHeadersize))

theorem icmpReply_sends {board : Board} {world : World} {icmpRequest : Nat} {ipaddr : BitVec 32}
    {mac : BitVec 64} (ping : (world.pkt icmpRequest).get 0 = icmpPing)
    (small : (replyLength (world.pkt icmpRequest)).toNat < 1024)
    (resolved : (arpLookup board world ipaddr).2 = some mac) :
    ∃ built : World, icmpReply board world ipaddr icmpRequest =
        txPkt board built world.arena.next ∧
      built.arena.cells world.arena.next =
        some (replyFrame board world (world.pkt icmpRequest) ipaddr mac) ∧
      built.txReads = world.txReads ∧ built.sent = world.sent := by
  obtain ⟨arena, builds, cell⟩ := icmpReply_builds ipaddr ping small
  generalize address : world.arena.next = pkt at *
  have room : ¬ (replyPacket board (world.pkt icmpRequest)).pUser < 20 + 8 := by
    rw [replyPacket_pUser]
    decide
  obtain ⟨scanned, lookup⟩ : ∃ scanned, arpLookup board { world with arena } ipaddr =
      ({ world with arena, arpTable := scanned }, some mac) := arpLookup_found resolved rfl rfl
  rw [builds]
  exact txIppkt_sends ipprotoIcmp defaultip cell room (congrArg Prod.snd lookup)

section Frame

variable (board : Board) (world : World) {request : NetPacket} (ipaddr : BitVec 32)
  (mac : BitVec 64)

/-- The headers before the message. -/
theorem replyFrame_contents (small : (replyLength request).toNat < 1024) :
    ∃ cksum : BitVec 32, (replyFrame board world request ipaddr mac).contents =
      ethHeaderBytes ethertypeIp mac ++
        (ipHeaderBytes (BitVec.ofNat 32 ((replyLength request).toNat + 20))
          (world.ipPktid + bigPrime) ipprotoIcmp defaultip ipaddr cksum ++
          (replyPacket board request).contents) := by
  have message := replyPacket_contents board request
  have length := repeated_length request
  have begins := replyPacket_begins board request
  rw [← message] at begins
  obtain ⟨cksum, ip⟩ := ipSet_begins begins (world.ipPktid + bigPrime) ipprotoIcmp defaultip ipaddr
  have total : ((replyPacket board request).grow ipHeadersize).pLength =
      BitVec.ofNat 32 ((replyLength request).toNat + 20) := by
    rw [NetPacket.grow, replyPacket_pLength, BitVec.ofNat_add, BitVec.ofNat_toNat,
      BitVec.setWidth_eq]
    rfl
  rw [total] at ip
  refine ⟨cksum, (ethHeader_begins ip ethertypeIp mac).contents ?_⟩
  have whole : (replyFrame board world request ipaddr mac).pLength =
      BitVec.ofNat 32 ((replyLength request).toNat + 28) := by
    simp only [replyFrame, ethHeader, NetPacket.putAll_pLength, NetPacket.grow, ipSet_pLength,
      replyPacket_pLength, ethHeadersize, ipHeadersize]
    apply BitVec.eq_of_toNat_eq
    simp
  change (replyFrame board world request ipaddr mac).pLength.toNat = _
  rw [whole, BitVec.toNat_ofNat, message]
  simp [ethHeaderBytes, ipHeaderBytes]
  omega

theorem replyFrame_totalLength (small : (replyLength request).toNat < 1024) :
    ipTotalLength (replyFrame board world request ipaddr mac).contents =
      (replyLength request).toNat + 20 := by
  obtain ⟨cksum, contents⟩ := replyFrame_contents board world ipaddr mac small
  have size : (BitVec.ofNat 32 ((replyLength request).toNat + 20)).toNat =
      (replyLength request).toNat + 20 := by
    rw [BitVec.toNat_ofNat, Nat.mod_eq_of_lt (by omega)]
  rw [ipTotalLength, contents]
  change (be16 (octet (BitVec.ofNat 32 ((replyLength request).toNat + 20)) 1)
    (octet (BitVec.ofNat 32 ((replyLength request).toNat + 20)) 0)).toNat = _
  rw [be16_octets_of_lt _ (by omega), size]

theorem replyFrame_message (small : (replyLength request).toNat < 1024) :
    icmpMessage (replyFrame board world request ipaddr mac).contents =
      (replyPacket board request).contents := by
  have total := replyFrame_totalLength board world ipaddr mac small
  obtain ⟨cksum, contents⟩ := replyFrame_contents board world ipaddr mac small
  have header : ipHeaderLength (replyFrame board world request ipaddr mac).contents = 20 := by
    rw [ipHeaderLength, contents]
    change 4 * ((0x45 : Byte).toNat % 16) = 20
    rfl
  have message := replyPacket_contents board request
  have length := repeated_length request
  have size : (ethHeaderBytes ethertypeIp mac ++
      (ipHeaderBytes (BitVec.ofNat 32 ((replyLength request).toNat + 20))
        (world.ipPktid + bigPrime) ipprotoIcmp defaultip ipaddr cksum ++
        (replyPacket board request).contents)).length = 8 + ((replyLength request).toNat + 20) := by
    rw [message]
    simp only [ethHeaderBytes, ipHeaderBytes, List.length_append, List.length_cons, List.length_nil]
    omega
  rw [icmpMessage, total, header, contents, List.take_of_length_le (Nat.le_of_eq size)]
  rfl

end Frame

/-! ### The request -/

/-- A frame as `rx_pkt` takes it in and the main loop hands it on. -/
structure Received (received : NetPacket) : Prop where
  user : received.pUser = 0
  bound : received.pLength.toNat ≤ 2047

section Request

variable {received : NetPacket}

theorem contents_getD {index : Nat} (inside : index < received.pLength.toNat) :
    received.contents.getD index 0 = received.get index := by
  simp [NetPacket.contents, List.getD, inside]

theorem contents_length (received : NetPacket) :
    received.contents.length = received.pLength.toNat := by
  simp [NetPacket.contents]

theorem opened_header (raw : Received received) (some : 8 < received.pLength.toNat) :
    (ippktHeaderBytes (rxEthpkt received)).toNat = ipHeaderLength received.contents := by
  rw [rxEthpkt_headerBytes raw.user, ipHeaderLength, contents_getD some, NetPacket.get, raw.user]
  rfl

theorem opened_get (raw : Received received) (some : 8 < received.pLength.toNat) (index : Nat) :
    (rxIppkt (rxEthpkt received)).get index =
      received.get ((8 + ipHeaderLength received.contents + index : Nat) : Int) := by
  have header := opened_header raw some
  rw [NetPacket.get, NetPacket.get, rxIppkt, NetPacket.strip, header]
  simp only [rxEthpkt, NetPacket.strip]
  congr 1
  push_cast
  omega

theorem opened_length (raw : Received received)
    (whole : 8 + ipHeaderLength received.contents ≤ received.pLength.toNat)
    (some : 8 < received.pLength.toNat) :
    (rxIppkt (rxEthpkt received)).pLength.toNat =
      received.pLength.toNat - 8 - ipHeaderLength received.contents := by
  have header := opened_header raw some
  have station : (rxEthpkt received).pLength.toNat = received.pLength.toNat - 8 :=
    BitVec.toNat_sub_of_le (BitVec.le_def.mpr (Nat.le_of_lt some))
  have stripped := BitVec.toNat_sub_of_le (x := (rxEthpkt received).pLength)
    (y := ippktHeaderBytes (rxEthpkt received)) (BitVec.le_def.mpr (by omega))
  rw [station, header] at stripped
  exact stripped

theorem message_request (request : EchoRequest received.contents) :
    8 < received.pLength.toNat ∧
      8 + ipTotalLength received.contents ≤ received.pLength.toNat := by
  have fits := request.fits
  have whole := request.whole
  rw [contents_length] at fits
  omega

/-- The first byte of the message is where the program looks for it. -/
theorem opened_ping (raw : Received received) (request : EchoRequest received.contents) :
    (rxIppkt (rxEthpkt received)).get 0 = icmpPing := by
  obtain ⟨some, fits⟩ := message_request request
  have whole := request.whole
  have ping := request.ping
  have first := opened_get raw some 0
  rw [Nat.add_zero] at first
  change (rxIppkt (rxEthpkt received)).get 0 = _ at first
  rw [first, ← contents_getD (by omega), ← ping, icmpMessage]
  simp only [List.getD, List.getElem?_drop, Nat.add_zero]
  rw [List.getElem?_take_of_lt (by omega)]

theorem opened_replyLength (raw : Received received) (request : EchoRequest received.contents) :
    (replyLength (rxIppkt (rxEthpkt received))).toNat =
      received.pLength.toNat - 8 - ipHeaderLength received.contents := by
  obtain ⟨some, fits⟩ := message_request request
  have whole := request.whole
  have length := opened_length raw (by omega) some
  have bound := raw.bound
  have long : (rxIppkt (rxEthpkt received)).pLength.slt 8 = false := by
    rw [← Bool.not_eq_true, BitVec.slt, decide_eq_true_eq, BitVec.toInt_eq_toNat_cond, length]
    simp
    omega
  rw [replyLength, long, if_neg Bool.false_ne_true, length]

/-- All that follows the checksum in the frame is repeated, padding included. -/
theorem opened_repeated (raw : Received received) (request : EchoRequest received.contents) :
    repeated (rxIppkt (rxEthpkt received)) =
      (received.contents.drop (8 + ipHeaderLength received.contents)).drop 4 := by
  obtain ⟨some, fits⟩ := message_request request
  rw [repeated, opened_replyLength raw request]
  congr 1
  apply List.ext_getElem
  · simp only [List.length_map, List.length_range, List.length_drop, contents_length]
    omega
  · intro offset left right
    have inside : offset < received.pLength.toNat - 8 - ipHeaderLength received.contents := by
      simpa using left
    have found : received.contents.getD (8 + ipHeaderLength received.contents + offset) 0 =
        received.get ((8 + ipHeaderLength received.contents + offset : Nat) : Int) :=
      contents_getD (by omega)
    have within : 8 + ipHeaderLength received.contents + offset < received.contents.length := by
      rw [contents_length]
      omega
    rw [List.getElem_map, List.getElem_range, List.getElem_drop, opened_get raw some, ← found]
    simp [List.getD, within]

theorem echoes_iff (raw : Received received) (request : EchoRequest received.contents)
    (board : Board) (world : World) (ipaddr : BitVec 32) (mac : BitVec 64)
    (small : (replyLength (rxIppkt (rxEthpkt received))).toNat < 1024) :
    Echoes received.contents
        (replyFrame board world (rxIppkt (rxEthpkt received)) ipaddr mac).contents ↔
      ipHeaderLength received.contents = 20 ∧
        received.pLength.toNat = 8 + ipTotalLength received.contents := by
  obtain ⟨some, fits⟩ := message_request request
  have whole := request.whole
  have length := contents_length received
  have total := replyFrame_totalLength board world ipaddr mac small
  have message : (icmpMessage (replyFrame board world (rxIppkt (rxEthpkt received)) ipaddr
      mac).contents).drop 4 =
      (received.contents.drop (8 + ipHeaderLength received.contents)).drop 4 := by
    rw [replyFrame_message board world ipaddr mac small, replyPacket_contents,
      ← opened_repeated raw request]
    rfl
  rw [opened_replyLength raw request] at total
  constructor
  · intro echoes
    have same := echoes.totalLength
    have sizes := congrArg List.length (message.symm.trans echoes.message)
    rw [total] at same
    simp only [icmpMessage, List.length_drop, List.length_take] at sizes
    omega
  · rintro ⟨header, frame⟩
    constructor
    · rw [total]
      omega
    · rw [message, icmpMessage, List.take_of_length_le (by omega)]

end Request

theorem icmpReply_result {board : Board} {world : World} {icmpRequest : Nat}
    {received : NetPacket} {ipaddr : BitVec 32} {mac : BitVec 64} (raw : Received received)
    (request : EchoRequest received.contents)
    (opened : world.pkt icmpRequest = rxIppkt (rxEthpkt received))
    (small : (replyLength (rxIppkt (rxEthpkt received))).toNat < 1024)
    (resolved : (arpLookup board world ipaddr).2 = some mac) :
    if board.txBusy world.txReads then
      (icmpReply board world ipaddr icmpRequest).waitingPkt = some world.arena.next ∧
        (icmpReply board world ipaddr icmpRequest).arena.cells world.arena.next =
          some (replyFrame board world (rxIppkt (rxEthpkt received)) ipaddr mac)
    else (icmpReply board world ipaddr icmpRequest).sent =
      world.sent ++ [(replyFrame board world (rxIppkt (rxEthpkt received)) ipaddr mac).contents] := by
  obtain ⟨built, sends, cell, reads, sent⟩ := icmpReply_sends
    (by rw [opened]; exact opened_ping raw request) (by rw [opened]; exact small) resolved
  rw [opened] at cell
  rw [sends, ← reads, ← sent]
  exact txPkt_result cell

theorem Received.of_rxPkt {rxcmd : BitVec 32} {netbrx heap : Int → Byte} {received : NetPacket}
    (taken : rxPkt rxcmd netbrx heap = some received) : Received received := by
  obtain ⟨user, same, bound⟩ := rxPkt_fields taken
  exact ⟨user, same ▸ bound⟩

/-- What becomes of an echo request: no reply if it is too long, and otherwise
one that echoes it if the IP header has no options and the frame ends where the
datagram does. -/
theorem icmp_echoes_iff (board : Board) (world : World) (icmpRequest : Nat)
    {rxcmd : BitVec 32} {netbrx heap : Int → Byte} {received : NetPacket}
    (taken : rxPkt rxcmd netbrx heap = some received) (request : EchoRequest received.contents)
    (opened : world.pkt icmpRequest = rxIppkt (rxEthpkt received)) (ipaddr : BitVec 32) :
    (1024 ≤ received.pLength.toNat - 8 - ipHeaderLength received.contents →
      icmpReply board world ipaddr icmpRequest = world) ∧
    ∀ mac : BitVec 64,
      received.pLength.toNat - 8 - ipHeaderLength received.contents < 1024 →
      (arpLookup board world ipaddr).2 = some mac →
      ∃ reply : NetPacket,
        (if board.txBusy world.txReads then
          (icmpReply board world ipaddr icmpRequest).waitingPkt = some world.arena.next ∧
            (icmpReply board world ipaddr icmpRequest).arena.cells world.arena.next = some reply
        else (icmpReply board world ipaddr icmpRequest).sent = world.sent ++ [reply.contents]) ∧
        (Echoes received.contents reply.contents ↔
          ipHeaderLength received.contents = 20 ∧
            received.pLength.toNat = 8 + ipTotalLength received.contents) := by
  have raw := Received.of_rxPkt taken
  have length := opened_replyLength raw request
  constructor
  · intro large
    exact icmpReply_refuses ipaddr (by rw [opened, length]; exact large)
  · intro mac small resolved
    have few : (replyLength (rxIppkt (rxEthpkt received))).toNat < 1024 := by
      rw [length]
      exact small
    exact ⟨_, icmpReply_result raw request opened few resolved,
      echoes_iff raw request board world ipaddr mac few⟩

/-- A ping of eight bytes from the neighbour, 28 bytes of IP datagram. -/
def pingBytes : List Byte :=
  [0x01, 0x23, 0x45, 0x67, 0x89, 0xab, 0x08, 0x00,
    0x45, 0x00, 0x00, 0x1c, 0x00, 0x01, 0x00, 0x00, 0x40, 0x01, 0x00, 0x00,
    0xc0, 0xa8, 0x0f, 0x02, 0xc0, 0xa8, 0x0f, 0x16,
    0x08, 0x00, 0xe5, 0xca, 0x12, 0x34, 0x00, 0x01]

/-- The frame as `rx_pkt` takes it in when `length` bytes of it have come. -/
def pingFrame (length : BitVec 32) : NetPacket where
  pUsageCount := 1
  pRawlen := length
  pLength := length
  pRaw index :=
    if 0 ≤ index ∧ index < length.toNat + 2 then pingBytes.getD index.toNat 0 else 0
  pUser := 0

/-- The neighbour's ping is at address zero. -/
def askedWorld (length : BitVec 32) : World :=
  { neighbourWorld with
    arena :=
      { cells := fun address =>
          if address = 0 then some (rxIppkt (rxEthpkt (pingFrame length))) else none
        next := 1
        freed := [] } }

theorem pingFrame_request (length : BitVec 32) (cut : length = 36 ∨ length = 54) :
    EchoRequest (pingFrame length).contents := by
  rcases cut with rfl | rfl
  · constructor <;> decide
  · constructor <;> decide

theorem short_ping_echoed :
    ∃ reply : NetPacket,
      (icmpReply idleBoard (askedWorld 36) 0xc0a80f02 0).sent = [reply.contents] ∧
      Echoes (pingFrame 36).contents reply.contents := by
  have taken : rxPkt 0x4024 (fun index => pingBytes.getD index.toNat 0) (fun _ => 0) =
      some (pingFrame 36) := rfl
  obtain ⟨reply, sent, echoes⟩ := (icmp_echoes_iff idleBoard (askedWorld 36) 0 taken
    (pingFrame_request 36 (.inl rfl)) rfl 0xc0a80f02).2 0x0123456789ab (by decide) (by decide)
  exact ⟨reply, sent, echoes.mpr (by decide)⟩

/-- The same ping padded to the size of an Ethernet frame: the padding comes back
as data. -/
theorem padded_ping_not_echoed :
    ∃ reply : NetPacket,
      (icmpReply idleBoard (askedWorld 54) 0xc0a80f02 0).sent = [reply.contents] ∧
      ¬ Echoes (pingFrame 54).contents reply.contents := by
  have raw : Received (pingFrame 54) := ⟨rfl, by decide⟩
  have request := pingFrame_request 54 (.inr rfl)
  have few : (replyLength (rxIppkt (rxEthpkt (pingFrame 54)))).toNat < 1024 := by decide
  have opened : (askedWorld 54).pkt 0 = rxIppkt (rxEthpkt (pingFrame 54)) := rfl
  have resolved : (arpLookup idleBoard (askedWorld 54) 0xc0a80f02).2 = some 0x0123456789ab := by
    decide
  have sent := icmpReply_result raw request opened few resolved
  refine ⟨_, sent, ?_⟩
  rw [echoes_iff raw request idleBoard (askedWorld 54) 0xc0a80f02 0x0123456789ab few]
  decide

end ZipVersa.Net
