import ZipVersa.Net.ArpTable
import ZipVersa.Net.RoundTrip

/-! What `rx_arp` hands to the transmitter. It answers a request without
reading whom the request is for, and `arp_table_add` of a station that is not
in the table goes through `arp_lookup`, which asks for that station. -/

set_option autoImplicit false

namespace ZipVersa.Net

open Lib

/-! ### Frames handed over -/

def arpFrame (operation : Byte) (targetMac : BitVec 64) (targetIp : BitVec 32)
    (dest : BitVec 64) : List Byte :=
  ethHeaderBytes ethertypeArp dest ++ arpBody operation targetMac targetIp

/-- One frame goes to the transmitter: copied out at once, or left waiting
when the transmitter is busy. -/
structure Transmits (board : Board) (before after : World) (frame : List Byte) : Prop where
  reads : after.txReads = before.txReads + 1
  now : board.txBusy before.txReads = false →
    after.sent = before.sent ++ [frame] ∧ after.waitingPkt = before.waitingPkt
  later : board.txBusy before.txReads = true → after.sent = before.sent ∧
    after.waitingPkt = some before.arena.next ∧ (after.pkt before.arena.next).contents = frame

/-- No frame goes to the transmitter. -/
structure Silent (before after : World) : Prop where
  reads : after.txReads = before.txReads
  sent : after.sent = before.sent
  waiting : after.waitingPkt = before.waitingPkt

variable {board : Board} {world before after : World} {pkt : Nat} {frame other : List Byte}

theorem Silent.not_transmits (silent : Silent before after) :
    ¬Transmits board before after frame := by
  intro transmits
  have reads := transmits.reads
  rw [silent.reads] at reads
  exact Nat.ne_of_lt (Nat.lt_succ_self _) reads

theorem Transmits.unique (first : Transmits board before after frame)
    (second : Transmits board before after other) : frame = other := by
  cases busy : board.txBusy before.txReads with
  | false =>
      have same := (first.now busy).1.symm.trans (second.now busy).1
      exact List.singleton_inj.mp (List.append_cancel_left same)
  | true => exact (first.later busy).2.2.symm.trans (second.later busy).2.2

theorem freePkt_pkt (apart : pkt ≠ world.arena.next) (world' : World) :
    (freePkt world' pkt).pkt world.arena.next = world'.pkt world.arena.next := by
  unfold World.pkt freePkt
  rw [Arena.release_cells_of_ne usageLens apart.symm]

theorem Transmits.freePkt (transmits : Transmits board before after frame)
    (apart : pkt ≠ before.arena.next) : Transmits board before (freePkt after pkt) frame := by
  refine ⟨transmits.reads, transmits.now, fun busy => ?_⟩
  rw [freePkt_pkt apart]
  exact transmits.later busy

theorem txPkt_transmits {packet : NetPacket} (cell : world.arena.cells pkt = some packet) :
    (txPkt board world pkt).txReads = world.txReads + 1 ∧
      (board.txBusy world.txReads = false →
        (txPkt board world pkt).sent = world.sent ++ [packet.contents] ∧
          (txPkt board world pkt).waitingPkt = world.waitingPkt) ∧
      (board.txBusy world.txReads = true → (txPkt board world pkt).sent = world.sent) := by
  unfold txPkt
  cases busy : board.txBusy world.txReads with
  | false => simp [freePkt, World.pkt, cell]
  | true =>
      simp only [txBusy, if_true]
      split
      · simp
      · split_ifs <;> simp [freePkt]

/-! ### ARP packets built by the board -/

/-- `send_arp_request` and `send_arp_reply`. -/
def sendArp (board : Board) (world : World) (operation : Byte) (targetMac : BitVec 64)
    (targetIp : BitVec 32) (dest : BitVec 64) : World :=
  let (allocated, pkt) := newArp board world
  txEthpkt board (allocated.modifyPkt pkt (·.putAll 0 (arpBody operation targetMac targetIp))) pkt
    ethertypeArp dest

theorem sendArpRequest_eq (board : Board) (world : World) (ipaddr : BitVec 32) :
    sendArpRequest board world ipaddr = sendArp board world 1 0 ipaddr 0xffffffffffff :=
  rfl

theorem sendArpReply_eq (board : Board) (world : World) (mac : BitVec 64) (ipaddr : BitVec 32) :
    sendArpReply board world mac ipaddr = sendArp board world 2 mac ipaddr mac :=
  rfl

/-- The packet `new_arp` returns. -/
def freshArp (board : Board) : NetPacket where
  pUsageCount := 1
  pRawlen := 36
  pLength := 28
  pRaw := board.mallocBytes
  pUser := 8

theorem newArp_eq (board : Board) (world : World) :
    ∃ arena, newArp board world = ({ world with arena }, world.arena.next) ∧
      arena.cells world.arena.next = some (freshArp board) := by
  refine ⟨_, rfl, ?_⟩
  simp only [Arena.modify, Arena.alloc, Function.update_self, Option.map_some, Option.some.injEq]
  simp [NetPacket.strip, freshArp]

theorem arpFrame_contents (board : Board) (operation : Byte) (targetMac : BitVec 64)
    (targetIp : BitVec 32) (dest : BitVec 64) :
    (ethHeader ethertypeArp dest
      ((freshArp board).putAll 0 (arpBody operation targetMac targetIp))).contents =
        arpFrame operation targetMac targetIp dest := by
  have body := NetPacket.Begins.written (freshArp board) (arpBody operation targetMac targetIp)
  refine (ethHeader_begins body ethertypeArp dest).contents ?_
  simp only [ethHeader, NetPacket.putAll_pLength, NetPacket.grow]
  rfl

theorem sendArp_transmits (board : Board) (world : World) (operation : Byte)
    (targetMac : BitVec 64) (targetIp : BitVec 32) (dest : BitVec 64) :
    Transmits board world (sendArp board world operation targetMac targetIp dest)
      (arpFrame operation targetMac targetIp dest) := by
  obtain ⟨arena, allocated, fresh⟩ := newArp_eq board world
  let built := (({ world with arena } : World).modifyPkt world.arena.next
    (·.putAll 0 (arpBody operation targetMac targetIp))).modifyPkt world.arena.next
      (ethHeader ethertypeArp dest)
  have cell : built.arena.cells world.arena.next = some (ethHeader ethertypeArp dest
      ((freshArp board).putAll 0 (arpBody operation targetMac targetIp))) := by
    simp [built, fresh]
  have sends : sendArp board world operation targetMac targetIp dest =
      txPkt board built world.arena.next := by
    simp only [sendArp, allocated]
    rfl
  obtain ⟨reads, now, later⟩ := @txPkt_transmits board _ _ _ cell
  have result := @txPkt_result board _ _ _ cell
  rw [arpFrame_contents] at now
  rw [sends]
  refine ⟨reads, now, fun busy => ⟨later busy, ?_⟩⟩
  have waits : board.txBusy built.txReads = true := busy
  rw [if_pos waits] at result
  refine ⟨result.1, ?_⟩
  rw [World.pkt, result.2]
  exact arpFrame_contents board operation targetMac targetIp dest

/-! ### A look-up that fails -/

/-- `arp_table_add` of this address looks it up in vain. -/
def Asks (world : World) (ipaddr : BitVec 32) : Prop :=
  ipaddr ≠ defaultip ∧ ipaddr ≠ defaultRouterip ∧ ¬Routed world.routerMacAddr ipaddr ∧
    ∀ entry ∈ world.arpTable, entry.valid = true → entry.ipaddr ≠ ipaddr

instance (world : World) (ipaddr : BitVec 32) : Decidable (Asks world ipaddr) :=
  inferInstanceAs (Decidable (_ ∧ _ ∧ _ ∧ _))

theorem lookupEntry_none_iff {routerMacAddr : BitVec 64} {table : List ArpTableEntry}
    {ipaddr : BitVec 32} : (lookupEntry routerMacAddr table ipaddr).2 = none ↔
      ¬Routed routerMacAddr ipaddr ∧ ∀ entry ∈ table, entry.valid = true → entry.ipaddr ≠ ipaddr := by
  unfold lookupEntry
  split_ifs with routed
  · simp [routed]
  · simp only [routed, not_false_eq_true, true_and]
    exact arpScan_none_iff

theorem arpLookup_transmits (board : Board) {world : World} {ipaddr : BitVec 32}
    (missed : (arpLookup board world ipaddr).2 = none) :
    Transmits board world (arpLookup board world ipaddr).1
      (arpFrame 1 0 ipaddr 0xffffffffffff) := by
  unfold arpLookup at missed ⊢
  split_ifs at missed ⊢ with routed
  rcases scan : arpScan ipaddr 0 world.arpTable with ⟨scanned, found⟩
  rw [scan] at missed
  cases found with
  | some mac => cases missed
  | none =>
      have asked := sendArp_transmits board { world with arpTable := scanned } 1 0 ipaddr
        0xffffffffffff
      rw [← sendArpRequest_eq] at asked
      exact ⟨asked.reads, asked.now, asked.later⟩

theorem arpLookup_silent (board : Board) {world : World} {ipaddr : BitVec 32} {mac : BitVec 64}
    (found : (arpLookup board world ipaddr).2 = some mac) :
    Silent world (arpLookup board world ipaddr).1 := by
  unfold arpLookup at found ⊢
  split_ifs at found ⊢ with routed
  · exact ⟨rfl, rfl, rfl⟩
  · rcases scan : arpScan ipaddr 0 world.arpTable with ⟨scanned, hit⟩
    rw [scan] at found
    cases hit with
    | some entry => exact ⟨rfl, rfl, rfl⟩
    | none => cases found

theorem arpTableAdd_transmits (board : Board) {world : World} {ipaddr : BitVec 32}
    (mac : BitVec 64) (asks : Asks world ipaddr) :
    Transmits board world (arpTableAdd board world ipaddr mac)
      (arpFrame 1 0 ipaddr 0xffffffffffff) := by
  obtain ⟨own, router, absent⟩ := asks
  have missed : (arpLookup board world ipaddr).2 = none := by
    rw [(arpLookup_tables board world ipaddr).2.1]
    exact lookupEntry_none_iff.mpr absent
  have asked := arpLookup_transmits board missed
  unfold arpTableAdd
  rw [if_neg own, if_neg router]
  generalize arpLookup board world ipaddr = result at missed asked ⊢
  obtain ⟨searched, found⟩ := result
  cases missed
  exact ⟨asked.reads, asked.now, asked.later⟩

theorem arpTableAdd_silent (board : Board) {world : World} {ipaddr : BitVec 32} (mac : BitVec 64)
    (known : ¬Asks world ipaddr) : Silent world (arpTableAdd board world ipaddr mac) := by
  unfold arpTableAdd
  by_cases own : ipaddr = defaultip
  · rw [if_pos own]
    exact ⟨rfl, rfl, rfl⟩
  by_cases router : ipaddr = defaultRouterip
  · rw [if_neg own, if_pos router]
    exact ⟨rfl, rfl, rfl⟩
  rw [if_neg own, if_neg router]
  cases lookup : (arpLookup board world ipaddr).2 with
  | none =>
      have absent := lookup
      rw [(arpLookup_tables board world ipaddr).2.1] at absent
      exact absurd ⟨own, router, lookupEntry_none_iff.mp absent⟩ known
  | some lclmac =>
      have silent := arpLookup_silent board lookup
      generalize arpLookup board world ipaddr = result at lookup silent ⊢
      obtain ⟨searched, found⟩ := result
      cases lookup
      dsimp only
      split_ifs
      · exact silent
      · split
        · exact silent
        · exact ⟨silent.reads, silent.sent, silent.waiting⟩

/-! ### The packet received -/

/-- The six bytes `rx_arp` compares with `arp_packet`: Ethernet and IPv4 addresses. -/
def Understood (request : NetPacket) : Prop :=
  [request.get 0, request.get 1, request.get 2, request.get 3, request.get 4, request.get 5] =
    [0x00, 0x01, 0x08, 0x00, 0x06, 0x04]

instance (request : NetPacket) : Decidable (Understood request) :=
  inferInstanceAs (Decidable (_ = _))

def IsRequest (request : NetPacket) : Prop :=
  Understood request ∧ request.get 6 = 0 ∧ request.get 7 = 1

def IsReply (request : NetPacket) : Prop :=
  Understood request ∧ request.get 6 = 0 ∧ request.get 7 = 2

instance (request : NetPacket) : Decidable (IsRequest request) :=
  inferInstanceAs (Decidable (_ ∧ _ ∧ _))

instance (request : NetPacket) : Decidable (IsReply request) :=
  inferInstanceAs (Decidable (_ ∧ _ ∧ _))

def srcMac (request : NetPacket) : BitVec 64 :=
  ((be16 (request.get 8) (request.get 9)).setWidth 64 <<< 32) |||
    (be32 (request.get 10) (request.get 11) (request.get 12) (request.get 13)).setWidth 64

def srcIp (request : NetPacket) : BitVec 32 :=
  be32 (request.get 14) (request.get 15) (request.get 16) (request.get 17)

/-- The target protocol address. -/
def targetIp (request : NetPacket) : BitVec 32 :=
  be32 (request.get 24) (request.get 25) (request.get 26) (request.get 27)

/-- The reply: the sender's addresses where the target's were, and the board's
own as the sender's. -/
def replyBytes (request : NetPacket) : List Byte :=
  let station := [request.get 8, request.get 9, request.get 10, request.get 11, request.get 12,
    request.get 13]
  station ++ [0x08, 0x06] ++ [0x00, 0x01, 0x08, 0x00, 0x06, 0x04, 0x00, 0x02] ++
    [octet defaultmac 5, octet defaultmac 4, octet defaultmac 3, octet defaultmac 2,
      octet defaultmac 1, octet defaultmac 0] ++
    [octet defaultip 3, octet defaultip 2, octet defaultip 1, octet defaultip 0] ++
    station ++ [request.get 14, request.get 15, request.get 16, request.get 17]

theorem octet_srcMac (request : NetPacket) :
    octet (srcMac request) 5 = request.get 8 ∧ octet (srcMac request) 4 = request.get 9 ∧
      octet (srcMac request) 3 = request.get 10 ∧ octet (srcMac request) 2 = request.get 11 ∧
      octet (srcMac request) 1 = request.get 12 ∧ octet (srcMac request) 0 = request.get 13 := by
  obtain ⟨low0, low1, low2, low3⟩ := octet_be32 (request.get 10) (request.get 11) (request.get 12)
    (request.get 13)
  obtain ⟨high0, high1⟩ := octet_be16 (request.get 8) (request.get 9)
  unfold srcMac
  simp only [octet_join]
  exact ⟨high1, high0, low3, low2, low1, low0⟩

theorem arpFrame_reply (request : NetPacket) :
    arpFrame 2 (srcMac request) (srcIp request) (srcMac request) = replyBytes request := by
  obtain ⟨mac5, mac4, mac3, mac2, mac1, mac0⟩ := octet_srcMac request
  obtain ⟨ip0, ip1, ip2, ip3⟩ := octet_be32 (request.get 14) (request.get 15) (request.get 16)
    (request.get 17)
  unfold arpFrame ethHeaderBytes arpBody
  rw [mac5, mac4, mac3, mac2, mac1, mac0, srcIp, ip0, ip1, ip2, ip3]
  rfl

/-- What `rx_arp` does with it. -/
inductive Handled (board : Board) (world : World) (request : NetPacket) (after : World) : Prop
  | ignored : ¬Understood request → Silent world after → Handled board world request after
  | answered : Understood request → request.get 7 = 1 →
      Transmits board world after (replyBytes request) → Handled board world request after
  | asked : Understood request → request.get 7 = 2 → Asks world (srcIp request) →
      Transmits board world after (arpFrame 1 0 (srcIp request) 0xffffffffffff) →
      Handled board world request after
  | learned : Understood request → request.get 7 = 2 → ¬Asks world (srcIp request) →
      Silent world after → Handled board world request after
  | unknown : Understood request → request.get 7 ≠ 1 → request.get 7 ≠ 2 →
      Silent world after → Handled board world request after

theorem rxArp_handled (board : Board) (world : World) (received : pkt < world.arena.next) :
    Handled board world (world.pkt pkt) (rxArp board world pkt) := by
  have apart : pkt ≠ world.arena.next := Nat.ne_of_lt received
  by_cases understood : Understood (world.pkt pkt)
  · have handled : rxArp board world pkt = freePkt
        (if (world.pkt pkt).get 7 = 1 then
          sendArpReply board world (srcMac (world.pkt pkt)) (srcIp (world.pkt pkt))
        else if (world.pkt pkt).get 7 = 2 then
          arpTableAdd board world (srcIp (world.pkt pkt)) (srcMac (world.pkt pkt))
        else world) pkt := if_neg (not_not.mpr understood)
    rw [handled]
    split_ifs with request reply
    · have answered := sendArp_transmits board world 2 (srcMac (world.pkt pkt))
        (srcIp (world.pkt pkt)) (srcMac (world.pkt pkt))
      rw [arpFrame_reply, ← sendArpReply_eq] at answered
      exact .answered understood request (answered.freePkt apart)
    · by_cases asks : Asks world (srcIp (world.pkt pkt))
      · have asked := arpTableAdd_transmits board (srcMac (world.pkt pkt)) asks
        exact .asked understood reply asks (asked.freePkt apart)
      · have silent := arpTableAdd_silent board (srcMac (world.pkt pkt)) asks
        exact .learned understood reply asks ⟨silent.reads, silent.sent, silent.waiting⟩
    · exact .unknown understood request reply ⟨rfl, rfl, rfl⟩
  · have dropped : rxArp board world pkt = freePkt (world.modifyPkt pkt pktReset) pkt :=
      if_pos understood
    rw [dropped]
    exact .ignored understood ⟨rfl, rfl, rfl⟩

/-! ### When the packet is answered as it should be -/

/-- A request for the board is answered, and nothing else makes `rx_arp` send a
reply; a reply, and a request for another host, make it send nothing. -/
structure Answers (board : Board) (world : World) (request : NetPacket) (after : World) : Prop where
  reply_iff : (∃ mac ip dest, Transmits board world after (arpFrame 2 mac ip dest)) ↔
    IsRequest request ∧ targetIp request = defaultip
  reply : IsRequest request → targetIp request = defaultip →
    Transmits board world after (replyBytes request)
  silent : IsReply request ∨ IsRequest request ∧ targetIp request ≠ defaultip →
    Silent world after

/-- Bytes of a packet taken for a request that `rx_arp` does not read. -/
def Overlooked (request : NetPacket) : Prop :=
  Understood request ∧ request.get 7 = 1 ∧ (request.get 6 ≠ 0 ∨ targetIp request ≠ defaultip)

instance (request : NetPacket) : Decidable (Overlooked request) :=
  inferInstanceAs (Decidable (_ ∧ _ ∧ _))

theorem Answers.of_silent {request : NetPacket} (silent : Silent world after)
    (other : ¬(IsRequest request ∧ targetIp request = defaultip)) :
    Answers board world request after where
  reply_iff := ⟨fun ⟨_, _, _, transmits⟩ => absurd transmits silent.not_transmits,
    fun request => absurd request other⟩
  reply request own := absurd ⟨request, own⟩ other
  silent _ := silent

theorem arpFrame_operation (operation : Byte) (mac : BitVec 64) (ip : BitVec 32) (dest : BitVec 64) :
    (arpFrame operation mac ip dest)[15]? = some operation :=
  rfl

theorem Handled.answers_iff {packet : NetPacket} (handled : Handled board world packet after) :
    Answers board world packet after ↔
      ¬Overlooked packet ∧ ¬(IsReply packet ∧ Asks world (srcIp packet)) := by
  cases handled with
  | ignored malformed silent =>
      refine iff_of_true (.of_silent silent fun own => malformed own.1.1) ⟨?_, ?_⟩
      · exact fun overlooked => malformed overlooked.1
      · exact fun asks => malformed asks.1.1
  | answered understood request transmits =>
      have notReply : ¬IsReply packet := fun reply => absurd (request.symm.trans reply.2.2) (by decide)
      constructor
      · intro answers
        refine ⟨fun ⟨_, _, overlooked⟩ => ?_, fun asks => notReply asks.1⟩
        rw [← arpFrame_reply] at transmits
        obtain ⟨⟨-, high, -⟩, own⟩ := answers.reply_iff.mp ⟨_, _, _, transmits⟩
        rcases overlooked with nonzero | elsewhere
        · exact nonzero high
        · exact elsewhere own
      · rintro ⟨read, -⟩
        have own : IsRequest packet ∧ targetIp packet = defaultip := by
          by_contra other
          refine read ⟨understood, request, ?_⟩
          by_contra both
          obtain ⟨high, own⟩ := not_or.mp both
          exact other ⟨⟨understood, not_not.mp high, request⟩, not_not.mp own⟩
        refine ⟨iff_of_true ?_ own, fun _ _ => transmits, ?_⟩
        · rw [← arpFrame_reply] at transmits
          exact ⟨_, _, _, transmits⟩
        · rintro (reply | ⟨-, elsewhere⟩)
          · exact absurd reply notReply
          · exact absurd own.2 elsewhere
  | asked understood reply asks transmits =>
      have notRequest : ¬IsRequest packet := fun request =>
        absurd (reply.symm.trans request.2.2) (by decide)
      constructor
      · intro answers
        refine ⟨fun overlooked => absurd (reply.symm.trans overlooked.2.1) (by decide), ?_⟩
        exact fun both => (answers.silent (.inl both.1)).not_transmits transmits
      · rintro ⟨-, known⟩
        refine ⟨iff_of_false ?_ fun own => notRequest own.1, fun own => absurd own notRequest, ?_⟩
        · rintro ⟨mac, ip, dest, sends⟩
          have same := congrArg (·[15]?) (sends.unique transmits)
          rw [arpFrame_operation, arpFrame_operation] at same
          cases same
        · rintro (isReply | ⟨request, -⟩)
          · exact absurd ⟨isReply, asks⟩ known
          · exact absurd request notRequest
  | learned understood reply known silent =>
      have notRequest : ¬IsRequest packet := fun request =>
        absurd (reply.symm.trans request.2.2) (by decide)
      refine iff_of_true (.of_silent silent fun own => notRequest own.1) ⟨?_, ?_⟩
      · exact fun overlooked => absurd (reply.symm.trans overlooked.2.1) (by decide)
      · exact fun asks => known asks.2
  | unknown understood request reply silent =>
      refine iff_of_true (.of_silent silent fun own => request own.1.2.2) ⟨?_, ?_⟩
      · exact fun overlooked => request overlooked.2.1
      · exact fun asks => reply asks.1.2.2

/-- For every packet and every state of the table, exactly when `rx_arp`
answers as it should: it has overlooked nothing, and it does not look up the
sender of a reply in vain. -/
theorem rx_arp_answers_iff (board : Board) {world : World} {pkt : Nat}
    (received : pkt < world.arena.next) :
    Answers board world (world.pkt pkt) (rxArp board world pkt) ↔
      ¬Overlooked (world.pkt pkt) ∧
        ¬(IsReply (world.pkt pkt) ∧ Asks world (srcIp (world.pkt pkt))) :=
  (rxArp_handled board world received).answers_iff

/-- The broadcast request of station 2 for an address of the network. -/
def requestFor (host : Byte) : NetPacket where
  pUsageCount := 1
  pRawlen := 28
  pLength := 28
  pRaw index := [0x00, 0x01, 0x08, 0x00, 0x06, 0x04, 0x00, 0x01, 0x02, 0, 0, 0, 0, 0x02,
    0xc0, 0xa8, 0x0f, 0x02, 0, 0, 0, 0, 0, 0, 0xc0, 0xa8, 0x0f, host].getD index.toNat 0
  pUser := 0

def receiving (request : NetPacket) : World :=
  { World.empty with arena := World.empty.arena.alloc request }

theorem own_request_answered : Answers (plainCall 0 0).board (receiving (requestFor 0x16))
    ((receiving (requestFor 0x16)).pkt 0)
    (rxArp (plainCall 0 0).board (receiving (requestFor 0x16)) 0) :=
  (rx_arp_answers_iff (plainCall 0 0).board (by decide)).mpr ⟨by decide, by decide⟩

/-- Station 2 asks for station 3, and the board answers. -/
theorem other_request_answered :
    let world := receiving (requestFor 0x03)
    let after := rxArp (plainCall 0 0).board world 0
    IsRequest (world.pkt 0) ∧ targetIp (world.pkt 0) ≠ defaultip ∧
      after.sent = [replyBytes (world.pkt 0)] ∧
      ¬Answers (plainCall 0 0).board world (world.pkt 0) after := by
  intro world after
  have sent : after.sent = [replyBytes (world.pkt 0)] := by decide +kernel
  refine ⟨by decide, by decide, sent, fun answers => ?_⟩
  have silent := answers.silent (.inr ⟨by decide, by decide⟩)
  rw [silent.sent] at sent
  cases sent

end ZipVersa.Net
