import ZipVersa.Net.MainLoop

/-! Every packet is owned. The references a state must account for are the one
in `waiting_pkt`, those a running handler holds, and those an earlier frame
left behind; `Owned` says the usage counts are exactly these. Each function of
the stack either is balanced or gives up the one reference it was handed. -/

set_option autoImplicit false

namespace ZipVersa.Net

open Lib

/-- The usage counts are the references in `waiting_pkt` and in `held`. -/
def Owned (world : World) (held : List Nat) : Prop :=
  world.arena.Accounts usageLens (world.waitingPkt.toList ++ held)

/-- What only depends on the arena and `waiting_pkt`. -/
theorem Owned.of_same {world after : World} {held : List Nat} (owned : Owned world held)
    (arena : after.arena = world.arena) (waiting : after.waitingPkt = world.waitingPkt) :
    Owned after held := by
  rw [Owned, arena, waiting]
  exact owned

theorem Owned.waiting_lt {world : World} {held : List Nat} (owned : Owned world held)
    {pkt : Nat} (waiting : world.waitingPkt = some pkt) : pkt < world.arena.next :=
  Arena.Accounts.lt_next owned (by simp [waiting])

theorem Owned.modifyPkt {world : World} {held : List Nat} (owned : Owned world held) (pkt : Nat)
    {change : NetPacket → NetPacket}
    (same : ∀ packet, (change packet).pUsageCount = packet.pUsageCount) :
    Owned (world.modifyPkt pkt change) held :=
  Arena.Accounts.modify owned same

theorem Owned.freePkt {world : World} {held : List Nat} {pkt : Nat}
    (owned : Owned world (pkt :: held)) : Owned (freePkt world pkt) held :=
  (owned.perm List.perm_middle).release

/-! ### Balanced steps -/

/-- A step that gives up exactly the references in `given`, none of which is
the pending one, and leaves in `waiting_pkt` only what was there, one of
`given`, or a packet it made. -/
structure Drops (given : List Nat) (world after : World) : Prop where
  owned : ∀ held, Owned world (given ++ held) →
    (∀ pkt ∈ given, world.waitingPkt ≠ some pkt) → Owned after held
  next : world.arena.next ≤ after.arena.next
  pending : ∀ pkt, after.waitingPkt = some pkt →
    world.waitingPkt = some pkt ∨ pkt ∈ given ∨ world.arena.next ≤ pkt

def Balanced (world after : World) : Prop := Drops [] world after

theorem Balanced.keeps {world after : World} (balanced : Balanced world after)
    {held : List Nat} (owned : Owned world held) : Owned after held :=
  balanced.owned held owned (by simp)

/-- A step that touches neither the arena nor `waiting_pkt`. -/
theorem Balanced.of_same {world after : World} (arena : after.arena = world.arena)
    (waiting : after.waitingPkt = world.waitingPkt) : Balanced world after :=
  ⟨fun _ owned _ => owned.of_same arena waiting, Nat.le_of_eq (by rw [arena]),
    fun _ pending => .inl (waiting ▸ pending)⟩

theorem Balanced.refl (world : World) : Balanced world world := .of_same rfl rfl

theorem Balanced.modifyPkt (world : World) (pkt : Nat) {change : NetPacket → NetPacket}
    (same : ∀ packet, (change packet).pUsageCount = packet.pUsageCount) :
    Balanced world (world.modifyPkt pkt change) :=
  ⟨fun _ owned _ => owned.modifyPkt pkt same, Nat.le_refl _, fun _ pending => .inl pending⟩

theorem Balanced.drops {given : List Nat} {world middle after : World}
    (first : Balanced world middle) (second : Drops given middle after) :
    Drops given world after where
  owned held owned distinct := by
    refine second.owned held (first.keeps owned) fun pkt member pending => ?_
    rcases first.pending pkt pending with earlier | absurd | fresh
    · exact distinct pkt member earlier
    · simp at absurd
    · have old := Arena.Accounts.lt_next owned
        (show pkt ∈ world.waitingPkt.toList ++ (given ++ held) by simp [member])
      omega
  next := Nat.le_trans first.next second.next
  pending pkt waiting := by
    rcases second.pending pkt waiting with before | member | new
    · rcases first.pending pkt before with earlier | absurd | fresh
      · exact .inl earlier
      · simp at absurd
      · exact .inr (.inr fresh)
    · exact .inr (.inl member)
    · exact .inr (.inr (Nat.le_trans first.next new))

theorem Balanced.trans {world middle after : World} (first : Balanced world middle)
    (second : Balanced middle after) : Balanced world after :=
  first.drops second

/-- The result of a function that makes a packet and returns its address:
giving that packet up is all that is left to do. -/
def Made (world : World) (made : World × Nat) : Prop :=
  ∀ after, Drops [made.2] made.1 after → Balanced world after

theorem Made.balanced {world middle after : World} {pkt : Nat} (made : Made world (middle, pkt))
    (second : Balanced middle after) : Made world (after, pkt) :=
  fun last drops => made last (second.drops drops)

/-! ### The stack -/

section Stack

variable (board : Board) (world : World) (pkt : Nat)

theorem freePkt_drops : Drops [pkt] world (freePkt world pkt) where
  owned _ owned _ := owned.freePkt
  next := Nat.le_of_eq (Arena.release_next usageLens world.arena pkt).symm
  pending _ waiting := .inl waiting

theorem txBusy_drops : Drops [pkt] world (txBusy world pkt) where
  owned held owned distinct := by
    unfold txBusy
    split
    · next idle =>
      rw [Owned, idle] at owned
      exact owned
    · next waiting pending =>
      have other : pkt ≠ waiting := fun same => distinct pkt (by simp) (same ▸ pending)
      rw [if_neg other]
      rw [Owned, pending] at owned
      exact Arena.Accounts.release owned
  next := by
    unfold txBusy
    split
    · exact Nat.le_refl _
    · split
      · exact Nat.le_refl _
      · exact Nat.le_of_eq (Arena.release_next usageLens world.arena _).symm
  pending other waiting := by
    unfold txBusy at waiting
    split at waiting
    · exact .inr (.inl (by simpa using waiting.symm))
    · split at waiting
      · exact .inl waiting
      · exact .inr (.inl (by simpa using waiting.symm))

theorem txPkt_drops : Drops [pkt] world (txPkt board world pkt) := by
  simp only [txPkt]
  split
  · refine Balanced.drops ?_ (txBusy_drops _ pkt)
    exact .of_same rfl rfl
  · refine Balanced.drops ?_ (freePkt_drops _ pkt)
    exact .of_same rfl rfl

theorem txEthpkt_drops (ethtype : BitVec 32) (mac : BitVec 64) :
    Drops [pkt] world (txEthpkt board world pkt ethtype mac) :=
  (Balanced.modifyPkt world pkt fun _ => by simp [ethHeader, NetPacket.grow]).drops
    (txPkt_drops board _ pkt)

/-- `malloc` of a packet with one reference. -/
theorem newPkt_made (msglen : Nat) : Made world (newPkt board world msglen) := by
  intro after drops
  refine ⟨fun held owned _ => drops.owned held ?_ ?_, ?_, ?_⟩
  · exact (Arena.Accounts.alloc owned rfl).perm List.perm_middle.symm
  · intro pkt member pending
    have old := owned.waiting_lt pending
    rw [List.mem_singleton.mp member] at old
    exact Nat.lt_irrefl _ old
  · exact Nat.le_trans (Nat.le_succ _) drops.next
  · intro pkt pending
    rcases drops.pending pkt pending with before | member | new
    · exact .inl before
    · exact .inr (.inr (List.mem_singleton.mp member ▸ Nat.le_refl _))
    · exact .inr (.inr (Nat.le_trans (Nat.le_succ _) new))

theorem newEthpkt_made (ln : Nat) : Made world (newEthpkt board world ln) := by
  have made := newPkt_made board world (ln + 8)
  unfold newEthpkt
  generalize newPkt board world (ln + 8) = result at made ⊢
  obtain ⟨allocated, pkt⟩ := result
  exact made.balanced (.modifyPkt allocated pkt fun _ => rfl)

theorem newIppkt_made (ln : Nat) : Made world (newIppkt board world ln) := by
  have made := newEthpkt_made board world (ln + 20)
  unfold newIppkt
  generalize newEthpkt board world (ln + 20) = result at made ⊢
  obtain ⟨allocated, pkt⟩ := result
  exact made.balanced (.modifyPkt allocated pkt fun _ => rfl)

theorem newUdppkt_made (len : Nat) : Made world (newUdppkt board world len) := by
  have made := newIppkt_made board world (len + udpHeadersize)
  unfold newUdppkt
  generalize newIppkt board world (len + udpHeadersize) = result at made ⊢
  obtain ⟨allocated, pkt⟩ := result
  exact made.balanced (.modifyPkt allocated pkt fun _ => rfl)

theorem sendArpRequest_balanced (ipaddr : BitVec 32) :
    Balanced world (sendArpRequest board world ipaddr) := by
  have made := newEthpkt_made board world 28
  unfold sendArpRequest newArp
  generalize newEthpkt board world 28 = result at made ⊢
  obtain ⟨allocated, pkt⟩ := result
  exact (made.balanced (.modifyPkt allocated pkt fun _ => by simp)) _ (txEthpkt_drops ..)

theorem sendArpReply_balanced (destMacAddr : BitVec 64) (destIpAddr : BitVec 32) :
    Balanced world (sendArpReply board world destMacAddr destIpAddr) := by
  have made := newEthpkt_made board world 28
  unfold sendArpReply newArp
  generalize newEthpkt board world 28 = result at made ⊢
  obtain ⟨allocated, pkt⟩ := result
  exact (made.balanced (.modifyPkt allocated pkt fun _ => by simp)) _ (txEthpkt_drops ..)

theorem arpLookup_balanced (ipaddr : BitVec 32) :
    Balanced world (arpLookup board world ipaddr).1 := by
  unfold arpLookup
  split
  · exact .refl world
  · rcases arpScan ipaddr 0 world.arpTable with ⟨scanned, found⟩
    cases found with
    | some mac => exact .of_same rfl rfl
    | none =>
        refine Balanced.trans ?_ (sendArpRequest_balanced board _ ipaddr)
        exact .of_same rfl rfl

theorem arpTableAdd_balanced (ipaddr : BitVec 32) (mac : BitVec 64) :
    Balanced world (arpTableAdd board world ipaddr mac) := by
  have lookup := arpLookup_balanced board world ipaddr
  unfold arpTableAdd
  split
  · exact .refl world
  · split
    · exact .of_same rfl rfl
    · generalize arpLookup board world ipaddr = result at lookup ⊢
      obtain ⟨searched, found⟩ := result
      cases found with
      | none => exact lookup.trans (.of_same rfl rfl)
      | some lclmac =>
          simp only
          split
          · exact lookup
          · split
            · exact lookup
            · exact lookup.trans (.of_same rfl rfl)

theorem ipSet_pUsageCount (pktid subproto src dest : BitVec 32) (packet : NetPacket) :
    (ipSet pktid subproto src dest packet).pUsageCount = packet.pUsageCount := by
  simp only [ipSet, NetPacket.putAll_pUsageCount]

theorem txIppkt_drops (subproto src dest : BitVec 32) :
    Drops [pkt] world (txIppkt board world pkt subproto src dest) := by
  unfold txIppkt
  split
  · exact freePkt_drops world pkt
  · let numbered := { world with ipPktid := world.ipPktid + bigPrime }
    let headed := numbered.modifyPkt pkt fun packet =>
      ipSet (world.ipPktid + bigPrime) subproto src dest (packet.grow ipHeadersize)
    have started : Balanced world headed := by
      refine Balanced.trans ?_ (.modifyPkt numbered pkt fun _ => ipSet_pUsageCount ..)
      exact .of_same rfl rfl
    have searching := arpLookup_balanced board headed dest
    rcases looked : arpLookup board headed dest with ⟨searched, found⟩
    rw [looked] at searching
    simp only [headed, numbered] at looked
    simp only [looked]
    cases found with
    | some mac => exact (started.trans searching).drops (txEthpkt_drops board searched pkt _ mac)
    | none => exact (started.trans searching).drops (freePkt_drops searched pkt)

theorem txUdp_drops (dest sport dport : BitVec 32) :
    Drops [pkt] world (txUdp board world pkt dest sport dport) :=
  (Balanced.modifyPkt world pkt fun _ => by simp [udpHeader, NetPacket.grow]).drops
    (txIppkt_drops board _ pkt _ _ _)

theorem sendUdp_balanced (payload : List Byte) (dest sport dport : BitVec 32) :
    Balanced world (sendUdp board world payload dest sport dport) := by
  have made := newUdppkt_made board world payload.length
  unfold sendUdp
  generalize newUdppkt board world payload.length = result at made ⊢
  obtain ⟨allocated, pkt⟩ := result
  exact (made.balanced (.modifyPkt allocated pkt fun _ => by simp)) _ (txUdp_drops ..)

theorem icmpReply_balanced (ipaddr : BitVec 32) (icmpRequest : Nat) :
    Balanced world (icmpReply board world ipaddr icmpRequest) := by
  unfold icmpReply newIcmp
  dsimp only
  generalize (if (world.pkt icmpRequest).pLength.slt 8 = true then 8
    else (world.pkt icmpRequest).pLength) = pktln
  have made := newIppkt_made board world pktln.toNat
  generalize newIppkt board world pktln.toNat = result at made ⊢
  obtain ⟨allocated, pkt⟩ := result
  split
  · exact .refl world
  · split
    · exact .refl world
    · exact (made.balanced (.modifyPkt allocated pkt fun _ => by
        simp [echoReply, icmpChecksum])) _ (txIppkt_drops ..)

theorem icmpSendPing_balanced (pingIpAddr : BitVec 32) :
    Balanced world (icmpSendPing board world pingIpAddr) := by
  have made := newIppkt_made board world 8
  unfold icmpSendPing newIcmp
  generalize newIppkt board world 8 = result at made ⊢
  obtain ⟨allocated, pkt⟩ := result
  dsimp only
  generalize nextIcmppktId allocated.icmppktId = icmppktId
  have numbered : Balanced allocated { allocated with icmppktId } := .of_same rfl rfl
  refine ((made.balanced numbered).balanced (.modifyPkt _ pkt fun packet => ?_)) _
    (txIppkt_drops ..)
  simp [echoRequest, icmpChecksum]

/-- `rx_arp` frees the packet it was given after a balanced step. -/
theorem rxArp_frees : ∃ middle, Balanced world middle ∧
    rxArp board world pkt = freePkt middle pkt := by
  unfold rxArp
  dsimp only
  split
  · exact ⟨world.modifyPkt pkt pktReset, .modifyPkt world pkt fun _ => rfl, rfl⟩
  · refine ⟨_, ?_, rfl⟩
    split
    · exact sendArpReply_balanced ..
    · split
      · exact arpTableAdd_balanced ..
      · exact .refl world

end Stack

/-! ### The FFT server -/

theorem respond_balanced (board : Board) (world : World) (outcome : Fft.Outcome) :
    Balanced world (respond board world outcome) := by
  have updated : Balanced world
      { world with device := outcome.device, fftOps := world.fftOps ++ outcome.ops } :=
    .of_same rfl rfl
  unfold respond
  cases outcome.reply with
  | none => exact updated
  | some payload => exact updated.trans (sendUdp_balanced ..)

theorem timerStep_balanced (app : App) (tick : Tick) (loop : Loop) :
    Balanced loop.world (timerStep app tick loop).world := by
  have pinged (ticked : Loop) : Balanced ticked.world (pingStep app tick ticked).world := by
    unfold pingStep
    split
    · exact icmpSendPing_balanced ..
    · exact .refl _
  have answered (ticked : Loop) : Balanced ticked.world (timeoutStep app tick ticked).world := by
    unfold timeoutStep
    split
    · exact respond_balanced ..
    · exact .refl _
  exact (pinged { loop with now := loop.now + 1 }).trans (answered _)

theorem txStep_balanced (tick : Tick) (world : World) : Balanced world (txStep tick world) := by
  unfold txStep
  split
  · exact .refl world
  · next pkt pending =>
    have sending := txPkt_drops tick.board { world with waitingPkt := none } pkt
    refine ⟨fun held owned _ => sending.owned held ?_ (by simp), sending.next, ?_⟩
    · rw [Owned, pending] at owned
      exact owned
    · intro other waiting
      rcases sending.pending other waiting with none | member | new
      · cases none
      · exact .inl (List.mem_singleton.mp member ▸ pending)
      · exact .inr (.inr new)

/-! ### Which frames come back -/

/-- The frame ends inside its UDP header while the length field announces
data: `rx_udp` then leaves a negative `p_length`. -/
def truncatedUdp (frame : NetPacket) : Prop :=
  8 + 4 * ((frame.pRaw 8).toNat % 16) ≤ frame.pRawlen.toNat ∧
    frame.pRawlen.toNat < 8 + 4 * ((frame.pRaw 8).toNat % 16) + 8 ∧
    8 < (udpLength (rxIppkt (rxEthpkt frame))).toNat

instance (frame : NetPacket) : Decidable (truncatedUdp frame) :=
  inferInstanceAs (Decidable (_ ∧ _ ∧ _))

/-- The server would take samples from this frame. -/
def takesFrom (device : Fft.Device) (frame : NetPacket) : Prop :=
  device.fftState = .input ∧
    device.takes (ippktSrc (rxEthpkt frame)) (udpSport (rxIppkt (rxEthpkt frame)))
      (Fft.pktUint16 (fun index => (rxChain frame).get index) 0)
      (Fft.pktUint16 (fun index => (rxChain frame).get index) 2)

instance (device : Fft.Device) (frame : NetPacket) : Decidable (takesFrom device frame) :=
  inferInstanceAs (Decidable (_ ∧ _))

/-- The IP packets for this station that are freed: not those `dump_ippkt`
refuses, nor those that make the sample loop of `fftpacket` run away. -/
def HandlesIp (app : App) (device : Fft.Device) (frame : NetPacket) : Prop :=
  if ippktSubproto (rxEthpkt frame) = ipprotoIcmp then True
  else if app = .fftmain ∧ ippktSubproto (rxEthpkt frame) = ipprotoUdp then
    udpDport (rxIppkt (rxEthpkt frame)) = fftport →
      ¬ (takesFrom device frame ∧ truncatedUdp frame)
  else frame.pRaw 8 = 0x45

/-- The frames whose handling ends with the packet freed. -/
def Handles (app : App) (device : Fft.Device) (frame : NetPacket) : Prop :=
  ethpktEthtype frame = ethertypeIp →
    ippktDst (rxEthpkt frame) = defaultip ∧ HandlesIp app device frame

/-- A packet as `rx_pkt` delivers it, up to its usage count. -/
structure Raw (frame : NetPacket) : Prop where
  user : frame.pUser = 0
  length : frame.pLength = frame.pRawlen
  bound : frame.pRawlen.toNat ≤ 2047

theorem Raw.count {frame : NetPacket} (raw : Raw frame) (pUsageCount : Int) :
    Raw { frame with pUsageCount } :=
  ⟨raw.user, raw.length, raw.bound⟩

theorem rxPkt_raw {rxcmd : BitVec 32} {netbrx heap : Int → Byte} {frame : NetPacket}
    (received : rxPkt rxcmd netbrx heap = some frame) : Raw frame := by
  obtain ⟨user, length, bound⟩ := rxPkt_fields received
  exact ⟨user, length, bound⟩

theorem Raw.reset {frame pkt : NetPacket} (raw : Raw frame)
    (same : pkt = { frame with pLength := pkt.pLength, pUser := pkt.pUser }) :
    pktReset pkt = frame := by
  rw [same, pktReset]
  obtain ⟨usage, rawlen, length, memory, user⟩ := frame
  have := raw.user
  have := raw.length
  simp_all

theorem World.pkt_of_cell {world : World} {address : Nat} {packet : NetPacket}
    (cell : world.arena.cells address = some packet) : world.pkt address = packet := by
  simp [World.pkt, cell]

theorem World.modifyPkt_cell {world : World} {address : Nat} {packet : NetPacket}
    (change : NetPacket → NetPacket) (cell : world.arena.cells address = some packet) :
    (world.modifyPkt address change).arena.cells address = some (change packet) := by
  simp [World.modifyPkt, Arena.modify, cell]

/-- The sample loop leaves the core's window exactly on a truncated frame. -/
theorem overrun_iff {frame : NetPacket} (raw : Raw frame) {device : Fft.Device}
    (posn : device.fftPosn.toNat < 65536) :
    Fft.dataWindow < device.fftPosn.toNat + Fft.inputWords (rxChain frame).pLength ↔
      truncatedUdp frame := by
  have field : (udpLength (rxIppkt (rxEthpkt frame))).toNat < 65536 := be16_lt _ _
  have length := rxChain_pLength raw.user raw.length raw.bound
  have bound := raw.bound
  unfold truncatedUdp Fft.inputWords Fft.dataWindow
  rw [length]
  split
  · omega
  · split <;> omega

section Dispatch

variable (tick : Tick) {world : World} {rcvd : Nat} {frame : NetPacket}

theorem fftpacket_cases (raw : Raw frame)
    (cell : world.arena.cells rcvd = some (rxChain frame)) :
    if takesFrom world.device frame ∧ truncatedUdp frame then
      fftpacket tick.board tick.peek world rcvd = none
    else ∃ middle, Balanced world middle ∧
      fftpacket tick.board tick.peek world rcvd = some (freePkt middle rcvd) := by
  have reset : pktReset (rxChain frame) = frame := raw.reset rfl
  have overrun := Fft.fftpacket_eq_none_iff world.device tick.peek (ippktSrc (rxEthpkt frame))
    (udpSport (rxIppkt (rxEthpkt frame))) (fun index => (rxChain frame).get index)
    (rxChain frame).pLength
  have runs : fftpacket tick.board tick.peek world rcvd =
      (Fft.fftpacket world.device tick.peek (ippktSrc (rxEthpkt frame))
        (udpSport (rxIppkt (rxEthpkt frame))) (fun index => (rxChain frame).get index)
        (rxChain frame).pLength).map fun outcome =>
          freePkt (respond tick.board world outcome) rcvd := by
    simp only [fftpacket, World.pkt_of_cell cell, reset]
  rw [runs]
  split
  · next bad =>
    obtain ⟨⟨input, takes⟩, truncated⟩ := bad
    have posn : world.device.fftPosn.toNat < 65536 := by
      rw [← takes.2.2.2]
      exact be16_lt _ _
    rw [overrun.mpr ⟨input, takes, (overrun_iff raw posn).mpr truncated⟩]
    rfl
  · next good =>
    cases result : Fft.fftpacket world.device tick.peek (ippktSrc (rxEthpkt frame))
        (udpSport (rxIppkt (rxEthpkt frame))) (fun index => (rxChain frame).get index)
        (rxChain frame).pLength with
    | some outcome => exact ⟨_, respond_balanced .., rfl⟩
    | none =>
        obtain ⟨input, takes, far⟩ := overrun.mp result
        have posn : world.device.fftPosn.toNat < 65536 := by
          rw [← takes.2.2.2]
          exact be16_lt _ _
        exact absurd ⟨⟨input, takes⟩, (overrun_iff raw posn).mp far⟩ good

/-- `dump_ethpkt` and `free_pkt`, as the loop does for what it cannot handle. -/
theorem dump_cases (raw : Raw frame) {packet : NetPacket}
    (cell : world.arena.cells rcvd = some packet)
    (same : packet = { frame with pLength := packet.pLength, pUser := packet.pUser }) :
    if ethpktEthtype frame = ethertypeIp ∧ frame.pRaw 8 ≠ 0x45 then
      (dumpEthpkt (world.modifyPkt rcvd pktReset) rcvd).map (freePkt · rcvd) = none
    else ∃ middle, Balanced world middle ∧
      (dumpEthpkt (world.modifyPkt rcvd pktReset) rcvd).map (freePkt · rcvd) =
        some (freePkt middle rcvd) := by
  have reset : pktReset packet = frame := raw.reset same
  have first : (rxEthpkt frame).get 0 = frame.pRaw 8 := by
    simp [rxEthpkt, NetPacket.strip, NetPacket.get, raw.user]
  have again : pktReset ((world.modifyPkt rcvd pktReset).pkt rcvd) = frame := by
    rw [World.pkt_of_cell (World.modifyPkt_cell pktReset cell), reset]
    exact raw.reset rfl
  simp only [dumpEthpkt, again, first]
  split
  · rfl
  · refine ⟨_, Balanced.trans ?_ (.modifyPkt (world.modifyPkt rcvd pktReset) rcvd ?_), rfl⟩
    · exact .modifyPkt world rcvd fun _ => rfl
    · exact fun _ => rfl

/-- The second switch, on an IP packet for this station. -/
theorem dispatchIp_cases (app : App) (raw : Raw frame) (ip : ethpktEthtype frame = ethertypeIp)
    (cell : world.arena.cells rcvd = some (rxIppkt (rxEthpkt frame))) (ipsrc : BitVec 32) :
    (HandlesIp app world.device frame → ∃ middle, Balanced world middle ∧
      dispatchIp app tick world rcvd ipsrc (ippktSubproto (rxEthpkt frame)) =
        some (freePkt middle rcvd)) ∧
    (¬ HandlesIp app world.device frame →
      dispatchIp app tick world rcvd ipsrc (ippktSubproto (rxEthpkt frame)) = none) := by
  unfold dispatchIp HandlesIp
  rw [World.pkt_of_cell cell]
  split
  · refine ⟨fun _ => ⟨_, ?_, rfl⟩, fun misses => absurd trivial misses⟩
    split
    · exact icmpReply_balanced ..
    · exact .refl world
  · split
    · split
      · next port =>
        have reading : Balanced world (world.modifyPkt rcvd rxUdp) :=
          .modifyPkt world rcvd fun _ => rfl
        have served := fftpacket_cases tick raw (World.modifyPkt_cell rxUdp cell)
        split at served
        · next bad => exact ⟨fun fine => absurd bad (fine port), fun _ => served⟩
        · next good =>
          refine ⟨fun _ => ?_, fun misses => absurd (fun _ => good) misses⟩
          obtain ⟨middle, balanced, frees⟩ := served
          exact ⟨middle, reading.trans balanced, frees⟩
      · next other =>
        exact ⟨fun _ => ⟨world, .refl world, rfl⟩,
          fun misses => absurd (fun port => absurd port other) misses⟩
    · have dumped := dump_cases raw cell rfl
      split at dumped
      · next bad => exact ⟨fun fine => absurd fine bad.2, fun _ => dumped⟩
      · next good =>
        refine ⟨fun _ => dumped, fun misses => absurd ?_ misses⟩
        by_contra wrong
        exact good ⟨ip, wrong⟩

/-- The dispatcher: a frame it handles is freed once, after a balanced step.
Otherwise it does not come back, or comes back without having freed. -/
theorem dispatch_cases (app : App) (raw : Raw frame)
    (cell : world.arena.cells rcvd = some frame) :
    (Handles app world.device frame → ∃ middle, Balanced world middle ∧
      dispatch app tick world rcvd = some (freePkt middle rcvd)) ∧
    (¬ Handles app world.device frame → dispatch app tick world rcvd = none ∨
      ∃ middle, Balanced world middle ∧ dispatch app tick world rcvd = some middle) := by
  have opening : Balanced world (world.modifyPkt rcvd rxEthpkt) :=
    .modifyPkt world rcvd fun _ => rfl
  have ethCell := World.modifyPkt_cell rxEthpkt cell
  have ipCell := World.modifyPkt_cell rxIppkt ethCell
  have opened : Balanced world ((world.modifyPkt rcvd rxEthpkt).modifyPkt rcvd rxIppkt) :=
    opening.trans (.modifyPkt _ rcvd fun _ => rfl)
  simp only [dispatch, World.pkt_of_cell cell, World.pkt_of_cell ethCell]
  by_cases arp : ethpktEthtype frame = ethertypeArp
  · have notIp : ethpktEthtype frame ≠ ethertypeIp := by rw [arp]; decide
    refine ⟨fun _ => ?_, fun misses => absurd (fun ip => absurd ip notIp) misses⟩
    rw [if_pos arp]
    obtain ⟨middle, balanced, frees⟩ :=
      rxArp_frees tick.board (world.modifyPkt rcvd rxEthpkt) rcvd
    exact ⟨middle, opening.trans balanced, congrArg some frees⟩
  · rw [if_neg arp]
    by_cases ip : ethpktEthtype frame = ethertypeIp
    · rw [if_pos ip]
      by_cases mine : ippktDst (rxEthpkt frame) = defaultip
      · rw [if_pos mine]
        have inner := dispatchIp_cases tick app raw ip ipCell (ippktSrc (rxEthpkt frame))
        refine ⟨fun handles => ?_, fun misses => .inl (inner.2 fun handlesIp =>
          misses fun _ => ⟨mine, handlesIp⟩)⟩
        obtain ⟨middle, balanced, frees⟩ := inner.1 (handles ip).2
        exact ⟨middle, opened.trans balanced, frees⟩
      · rw [if_neg mine]
        exact ⟨fun handles => absurd (handles ip).1 mine, fun _ => .inr ⟨_, opened, rfl⟩⟩
    · refine ⟨fun _ => ?_, fun misses => absurd (fun isIp => absurd isIp ip) misses⟩
      rw [if_neg ip]
      have dumped := dump_cases raw cell rfl
      rw [if_neg (fun both => ip both.1)] at dumped
      exact dumped

end Dispatch

/-! ### Whole iterations -/

/-- The packet was freed, once, and no longer exists. -/
def Released (world : World) (pkt : Nat) : Prop :=
  world.arena.cells pkt = none ∧ world.arena.freed.count pkt = 1

/-- The packet exists, was never freed, and `waiting_pkt` is its only
reference. -/
def PendingOnly (world : World) (pkt : Nat) : Prop :=
  world.waitingPkt = some pkt ∧
    (∃ packet, world.arena.cells pkt = some packet ∧ packet.pUsageCount = 1) ∧
    pkt ∉ world.arena.freed

/-- What an iteration that took a frame to address `rcvd` has to leave behind:
the frame freed once, and everything it made or found pending either freed
once or pending. -/
structure Settled (before after : World) (rcvd : Nat) : Prop where
  received : Released after rcvd
  made : ∀ pkt, before.arena.next ≤ pkt → pkt < after.arena.next →
    Released after pkt ∨ PendingOnly after pkt
  pending : ∀ pkt, before.waitingPkt = some pkt → Released after pkt ∨ PendingOnly after pkt

/-- The invariant of the loop: all references but the pending one belong to
packets that were lost in earlier iterations. -/
structure Accounted (world : World) (lost : List Nat) : Prop where
  owned : Owned world lost
  apart : ∀ pkt ∈ lost, world.waitingPkt ≠ some pkt

theorem Accounted.settles {world : World} {lost : List Nat} (accounted : Accounted world lost)
    {pkt : Nat} (old : pkt < world.arena.next) (kept : pkt ∉ lost) :
    Released world pkt ∨ PendingOnly world pkt := by
  by_cases pending : world.waitingPkt = some pkt
  · right
    have member : pkt ∈ world.waitingPkt.toList ++ lost := by simp [pending]
    obtain ⟨packet, cell⟩ := accounted.owned.live member
    refine ⟨pending, ⟨packet, cell, ?_⟩, accounted.owned.liveUnfreed pkt member⟩
    have counted := accounted.owned.counted pkt packet cell
    simpa [usageLens, pending, List.count_eq_zero_of_not_mem kept] using counted
  · left
    have absent : pkt ∉ world.waitingPkt.toList ++ lost := by
      simp only [List.mem_append, Option.mem_toList, not_or]
      exact ⟨pending, kept⟩
    exact ⟨(accounted.owned.held pkt).mpr absent, accounted.owned.freedOnce pkt old absent⟩

theorem Accounted.balanced {world after : World} {lost : List Nat}
    (accounted : Accounted world lost) (balanced : Balanced world after) :
    Accounted after lost where
  owned := balanced.keeps accounted.owned
  apart pkt member pending := by
    rcases balanced.pending pkt pending with before | absurd | new
    · exact accounted.apart pkt member before
    · simp at absurd
    · have old := Arena.Accounts.lt_next accounted.owned
        (show pkt ∈ world.waitingPkt.toList ++ lost by simp [member])
      omega

theorem takeFrame_owned {world : World} {held : List Nat} {frame : NetPacket}
    (owned : Owned world held) (single : frame.pUsageCount = 1) :
    Owned (takeFrame world frame) (world.arena.next :: world.arena.next :: held) := by
  have allocated : ({ world with arena := world.arena.alloc frame } : World).arena.Accounts
      usageLens (world.arena.next :: (world.waitingPkt.toList ++ held)) :=
    Arena.Accounts.alloc owned single
  have retained := allocated.retain (List.mem_cons_self)
  refine retained.perm ?_
  exact (List.perm_middle.symm.cons _).trans List.perm_middle.symm

theorem takeFrame_cell (world : World) (frame : NetPacket) :
    (takeFrame world frame).arena.cells world.arena.next =
      some { frame with pUsageCount := frame.pUsageCount + 1 } := by
  simp [takeFrame, Arena.retain, Arena.modify, Arena.alloc, usageLens]

theorem rxPkt_pUsageCount {rxcmd : BitVec 32} {netbrx heap : Int → Byte} {pkt : NetPacket}
    (received : rxPkt rxcmd netbrx heap = some pkt) : pkt.pUsageCount = 1 := by
  unfold rxPkt at received
  split at received
  · cases received
  · split at received
    · cases received
    · cases received
      rfl

theorem rxStep_handles {app : App} {tick : Tick} {world : World} {lost : List Nat}
    {frame : NetPacket} (accounted : Accounted world lost)
    (received : rxPkt tick.rxcmd tick.netbrx tick.heap = some frame)
    (handles : Handles app world.device frame) :
    ∃ after, rxStep app tick world = some after ∧ Accounted after lost ∧
      world.arena.next < after.arena.next ∧ after.waitingPkt ≠ some world.arena.next := by
  have raw := rxPkt_raw received
  have taken := takeFrame_owned accounted.owned (rxPkt_pUsageCount received)
  obtain ⟨middle, balanced, dispatched⟩ := (dispatch_cases tick app
    (raw.count (frame.pUsageCount + 1))
    (takeFrame_cell world frame)).1 handles
  have owned : Owned (freePkt (freePkt middle world.arena.next) world.arena.next) lost :=
    (balanced.keeps taken).freePkt.freePkt
  have fresh : ∀ pkt, middle.waitingPkt = some pkt →
      world.waitingPkt = some pkt ∨ world.arena.next < pkt := by
    intro pkt pending
    rcases balanced.pending pkt pending with before | absurd | new
    · exact .inl before
    · simp at absurd
    · exact .inr new
  refine ⟨_, ?_, ⟨owned, ?_⟩, ?_, ?_⟩
  · simp only [rxStep, received, dispatched]
    rfl
  · intro pkt member pending
    have old := Arena.Accounts.lt_next accounted.owned
      (show pkt ∈ world.waitingPkt.toList ++ lost by simp [member])
    rcases fresh pkt pending with before | new
    · exact accounted.apart pkt member before
    · omega
  · have later : world.arena.next < middle.arena.next := balanced.next
    simpa [freePkt] using later
  · intro pending
    rcases fresh _ pending with before | new
    · exact Nat.lt_irrefl _ (accounted.owned.waiting_lt before)
    · exact Nat.lt_irrefl _ new

/-- A frame that is not handled stays referenced, or the loop ends with it. -/
theorem rxStep_misses {app : App} {tick : Tick} {world : World} {lost : List Nat}
    {frame : NetPacket} (accounted : Accounted world lost)
    (received : rxPkt tick.rxcmd tick.netbrx tick.heap = some frame)
    (misses : ¬ Handles app world.device frame) :
    rxStep app tick world = none ∨
      ∃ after, rxStep app tick world = some after ∧
        Accounted after (world.arena.next :: lost) := by
  have raw := rxPkt_raw received
  have taken := takeFrame_owned accounted.owned (rxPkt_pUsageCount received)
  rcases (dispatch_cases tick app
    (raw.count (frame.pUsageCount + 1))
    (takeFrame_cell world frame)).2 misses with hangs | ⟨middle, balanced, dispatched⟩
  · left
    simp only [rxStep, received, hangs]
    rfl
  · right
    refine ⟨freePkt middle world.arena.next, ?_, (balanced.keeps taken).freePkt, ?_⟩
    · simp only [rxStep, received, dispatched]
      rfl
    · intro pkt member pending
      rcases balanced.pending pkt pending with before | absurd | new
      · rcases List.mem_cons.mp member with rfl | member
        · exact Nat.lt_irrefl _ (accounted.owned.waiting_lt before)
        · exact accounted.apart pkt member before
      · simp at absurd
      · have old : pkt < (takeFrame world frame).arena.next := by
          exact Arena.Accounts.lt_next taken (by
            simp only [List.mem_append, List.mem_cons]
            exact .inr (.inr (List.mem_cons.mp member)))
        omega

/-! The stack itself does not touch the globals of the FFT server. -/

section Device

variable (board : Board) (world : World) (pkt : Nat)

theorem txPkt_device : (txPkt board world pkt).device = world.device := by
  unfold txPkt txBusy
  dsimp only
  split
  · split
    · rfl
    · split <;> rfl
  · rfl

theorem sendArpRequest_device (ipaddr : BitVec 32) :
    (sendArpRequest board world ipaddr).device = world.device :=
  txPkt_device board _ _

theorem arpLookup_device (ipaddr : BitVec 32) :
    (arpLookup board world ipaddr).1.device = world.device := by
  unfold arpLookup
  split
  · rfl
  · rcases arpScan ipaddr 0 world.arpTable with ⟨scanned, found⟩
    cases found with
    | some mac => rfl
    | none => exact sendArpRequest_device board { world with arpTable := scanned } ipaddr

theorem txIppkt_device (subproto src dest : BitVec 32) :
    (txIppkt board world pkt subproto src dest).device = world.device := by
  unfold txIppkt
  split
  · rfl
  · let headed := ({ world with ipPktid := world.ipPktid + bigPrime } : World).modifyPkt pkt
      fun packet => ipSet (world.ipPktid + bigPrime) subproto src dest (packet.grow ipHeadersize)
    have searching : (arpLookup board headed dest).1.device = world.device :=
      arpLookup_device board headed dest
    rcases looked : arpLookup board headed dest with ⟨searched, found⟩
    rw [looked] at searching
    simp only [headed] at looked
    simp only [looked]
    cases found with
    | some mac => exact (txPkt_device board _ pkt).trans searching
    | none => exact searching

theorem timerStep_device (app : App) (tick : Tick) (loop : Loop) :
    (timerStep app tick loop).world.device = loop.world.device := by
  have pinged (ticked : Loop) :
      (pingStep app tick ticked).world.device = ticked.world.device := by
    unfold pingStep
    split
    · exact txIppkt_device ..
    · rfl
  have answered (ticked : Loop) :
      (timeoutStep app tick ticked).world.device = ticked.world.device := by
    unfold timeoutStep
    split
    · unfold ffttimeout respond
      dsimp only
      split
      · exact Fft.ffttimeout_device ..
      · exact (txIppkt_device ..).trans (Fft.ffttimeout_device ..)
    · rfl
  exact (answered _).trans (pinged { loop with now := loop.now + 1 })

end Device

/-- The state in which an iteration looks at the receiver. -/
def afterTimer (app : App) (tick : Tick) (loop : Loop) : Loop :=
  if tick.timer then timerStep app tick loop else loop

theorem afterTimer_balanced (app : App) (tick : Tick) (loop : Loop) :
    Balanced loop.world (afterTimer app tick loop).world := by
  unfold afterTimer
  split
  · exact timerStep_balanced ..
  · exact .refl _

theorem afterTimer_device (app : App) (tick : Tick) (loop : Loop) :
    (afterTimer app tick loop).world.device = loop.world.device := by
  unfold afterTimer
  split
  · exact timerStep_device ..
  · rfl

theorem nettx_balanced (tick : Tick) (world : World) :
    Balanced world (if tick.nettx then txStep tick world else world) := by
  split
  · exact txStep_balanced ..
  · exact .refl _

/-- The run lemma: whatever happened before, the counts are the pending packet
and the packets lost so far. -/
theorem Reachable.accounted {app : App} {loop : Loop} (reachable : Reachable app loop) :
    ∃ lost, Accounted loop.world lost := by
  induction reachable with
  | start board =>
      refine ⟨[], (icmpSendPing_balanced board World.empty hostIp).keeps ?_, by simp⟩
      exact ⟨by simp [World.empty], by simp [World.empty], by simp [World.empty],
        by simp [World.empty], by simp [World.empty]⟩
  | @next loop after tick _ iterated ih =>
      obtain ⟨lost, accounted⟩ := ih
      have timed := accounted.balanced (afterTimer_balanced app tick loop)
      change ((if tick.netrx then rxStep app tick (afterTimer app tick loop).world
        else some (afterTimer app tick loop).world).map _) = some after at iterated
      obtain ⟨world, served, rfl⟩ := Option.map_eq_some_iff.mp iterated
      have settled : ∃ lost, Accounted world lost := by
        split at served
        · cases received : rxPkt tick.rxcmd tick.netbrx tick.heap with
          | none =>
              simp only [rxStep, received, Option.some.injEq] at served
              exact ⟨lost, served ▸ timed⟩
          | some frame =>
              by_cases handles : Handles app (afterTimer app tick loop).world.device frame
              · obtain ⟨after, result, accounted, -⟩ := rxStep_handles timed received handles
                exact ⟨lost, Option.some.inj (served.symm.trans result) ▸ accounted⟩
              · rcases rxStep_misses timed received handles with hangs | ⟨after, result, accounted⟩
                · rw [hangs] at served
                  cases served
                · exact ⟨_, Option.some.inj (served.symm.trans result) ▸ accounted⟩
        · exact ⟨lost, Option.some.inj served ▸ timed⟩
      obtain ⟨lost, settled⟩ := settled
      exact ⟨lost, settled.balanced (nettx_balanced tick world)⟩

/-- In every state the loop can reach and for every frame the hardware
delivers, the iteration comes back with every packet settled if and only if
the frame is one of those `Handles` describes. -/
theorem iteration_settles_iff (app : App) (tick : Tick) (loop : Loop) (frame : NetPacket)
    (reachable : Reachable app loop) (interrupt : tick.netrx = true)
    (received : rxPkt tick.rxcmd tick.netbrx tick.heap = some frame) :
    (∃ after, iteration app tick loop = some after ∧
      Settled loop.world after.world (afterTimer app tick loop).world.arena.next) ↔
    Handles app loop.world.device frame := by
  obtain ⟨lost, accounted⟩ := reachable.accounted
  have timed := accounted.balanced (afterTimer_balanced app tick loop)
  have grown := (afterTimer_balanced app tick loop).next
  have unfolded : iteration app tick loop =
      (rxStep app tick (afterTimer app tick loop).world).map fun world =>
        { afterTimer app tick loop with
          world := if tick.nettx then txStep tick world else world } := by
    simp only [iteration, interrupt, if_true]
    rfl
  rw [unfolded, ← afterTimer_device app tick loop]
  have old : ∀ pkt ∈ lost, pkt < loop.world.arena.next := fun pkt member =>
    Arena.Accounts.lt_next accounted.owned (by simp [member])
  constructor
  · rintro ⟨after, iterated, settled⟩
    by_contra misses
    rcases rxStep_misses timed received misses with hangs | ⟨served, result, kept⟩
    · rw [hangs] at iterated
      cases iterated
    · rw [result] at iterated
      cases iterated
      have final := kept.balanced (nettx_balanced tick served)
      have held : (afterTimer app tick loop).world.arena.next ∈
          (if tick.nettx then txStep tick served else served).waitingPkt.toList ++
            ((afterTimer app tick loop).world.arena.next :: lost) := by simp
      exact (final.owned.held _).mp settled.received.1 held
  · intro handles
    obtain ⟨served, result, kept, later, apart⟩ := rxStep_handles timed received handles
    have last := nettx_balanced tick served
    have final := kept.balanced last
    have lastNext := last.next
    refine ⟨_, by rw [result]; rfl, ?_, ?_, ?_⟩
    · have current : (afterTimer app tick loop).world.arena.next <
          (if tick.nettx then txStep tick served else served).arena.next := by omega
      rcases final.settles current fun member => by have := old _ member; omega
        with released | ⟨pending, -⟩
      · exact released
      · rcases last.pending _ pending with before | absurd | new
        · exact absurd before apart
        · simp at absurd
        · omega
    · intro pkt made bound
      exact final.settles bound fun member => by have := old _ member; omega
    · intro pkt pending
      have before := accounted.owned.waiting_lt pending
      refine final.settles (by omega) fun member => accounted.apart pkt member pending

/-- A board that is never busy. -/
def quietBoard : Board where
  txBusy _ := false
  mallocBytes _ := 0
  staleEid := 0

/-- An iteration that finds one frame of 54 bytes, given by its IP destination
(the last octet of 192.168.15.x), protocol and first IP byte; its ICMP type is
that of a ping. -/
def frameTick (host subproto first : Byte) : Tick where
  board := quietBoard
  timer := false
  netrx := true
  nettx := false
  rxcmd := 0x4036
  netbrx index :=
    if index = 6 then 0x08 else if index = 8 then first
    else if index = 17 then subproto
    else if index = 24 then 192 else if index = 25 then 168
    else if index = 26 then 15 else if index = 27 then host
    else if index = 28 then 0x08
    else 0
  heap _ := 0
  peek _ := 0

/-- A ping to the broadcast address of the network is never freed: the
iteration ends with its usage count at one. -/
theorem broadcast_frame_leaks :
    ∃ after, iteration .fftmain (frameTick 255 1 0x45) (Loop.start quietBoard) = some after ∧
      (after.world.arena.cells 2).map NetPacket.pUsageCount = some 1 ∧
      ¬ Settled (Loop.start quietBoard).world after.world 2 := by
  refine ⟨_, rfl, rfl, fun settled => ?_⟩
  have gone := settled.received.1
  cases gone

/-- The same ping to the board itself is answered and freed. -/
theorem ping_settles :
    ∃ after, iteration .fftmain (frameTick 22 1 0x45) (Loop.start quietBoard) = some after ∧
      Settled (Loop.start quietBoard).world after.world
        (afterTimer .fftmain (frameTick 22 1 0x45) (Loop.start quietBoard)).world.arena.next :=
  (iteration_settles_iff .fftmain (frameTick 22 1 0x45) (Loop.start quietBoard) _
    (.start quietBoard) rfl rfl).mpr (by unfold Handles HandlesIp; decide)

end ZipVersa.Net
