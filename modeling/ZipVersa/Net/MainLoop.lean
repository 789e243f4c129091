import ZipVersa.Net.Stack

/-! The polling loops of `fftmain.c` and `pingtest.c`. One iteration answers
the timer, then a received frame, then the end of a transmission. It has no
result when the program does not come back from handling the frame. -/

set_option autoImplicit false

namespace ZipVersa.Net

open Lib

inductive App where
  | fftmain
  | pingtest
  deriving DecidableEq, Repr

/-- What the hardware shows to one iteration: the `pic` bits, the receive
registers and memory, and the FFT result memory. -/
structure Tick where
  board : Board
  timer : Bool
  netrx : Bool
  nettx : Bool
  rxcmd : BitVec 32
  netbrx : Int → Byte
  heap : Int → Byte
  peek : BitVec 32 → BitVec 32

/-- The program's memory with the locals of `main`. -/
structure Loop where
  world : World
  now : BitVec 32
  lastping : BitVec 32
  lastfft : BitVec 32

/-- `host_ip` of both programs. -/
def hostIp : BitVec 32 := defaultRouterip

/-! ### Handlers on the program's memory -/

/-- Perform what an FFT handler decided: the accesses to the core and the
reply, which always goes from `FFTPORT` to `fft_srcip`, `fft_port`. -/
def respond (board : Board) (world : World) (outcome : Fft.Outcome) : World :=
  let updated := { world with device := outcome.device, fftOps := world.fftOps ++ outcome.ops }
  match outcome.reply with
  | none => updated
  | some payload =>
      sendUdp board updated payload outcome.device.fftSrcip fftport outcome.device.fftPort

def fftpacket (board : Board) (peek : BitVec 32 → BitVec 32) (world : World) (pkt : Nat) :
    Option World :=
  let packet := world.pkt pkt
  let srcip := ippktSrc (rxEthpkt (pktReset packet))
  let sport := udpSport (rxIppkt (rxEthpkt (pktReset packet)))
  (Fft.fftpacket world.device peek srcip sport (fun index => packet.get index)
    packet.pLength).map fun outcome => freePkt (respond board world outcome) pkt

def ffttimeout (board : Board) (peek : BitVec 32 → BitVec 32) (world : World) : World :=
  respond board world (Fft.ffttimeout world.device peek)

/-- `dump_ethpkt`. Its only lasting effect is `pkt_reset`, but on an IP packet
that does not start with `0x45` `dump_ippkt` ends in `for(;;) ;`. -/
def dumpEthpkt (world : World) (pkt : Nat) : Option World :=
  let packet := pktReset (world.pkt pkt)
  if ethpktEthtype packet = ethertypeIp ∧ (rxEthpkt packet).get 0 ≠ 0x45 then none
  else some (world.modifyPkt pkt pktReset)

/-! ### Dispatch -/

/-- The `switch(subproto)`. `ipsrc` and `subproto` were read before
`rx_ippkt`. -/
def dispatchIp (app : App) (tick : Tick) (world : World) (rcvd : Nat)
    (ipsrc subproto : BitVec 32) : Option World :=
  if subproto = ipprotoIcmp then
    let answered :=
      if (world.pkt rcvd).get 0 = icmpPing then icmpReply tick.board world ipsrc rcvd else world
    some (freePkt answered rcvd)
  else if app = .fftmain ∧ subproto = ipprotoUdp then
    if udpDport (world.pkt rcvd) = fftport then
      fftpacket tick.board tick.peek (world.modifyPkt rcvd rxUdp) rcvd
    else some (freePkt world rcvd)
  else
    (dumpEthpkt (world.modifyPkt rcvd pktReset) rcvd).map fun dumped => freePkt dumped rcvd

/-- The `switch(ethpkt_ethtype(rcvd))`. -/
def dispatch (app : App) (tick : Tick) (world : World) (rcvd : Nat) : Option World :=
  let ethtype := ethpktEthtype (world.pkt rcvd)
  if ethtype = ethertypeArp then
    some (rxArp tick.board (world.modifyPkt rcvd rxEthpkt) rcvd)
  else if ethtype = ethertypeIp then
    let ip := world.modifyPkt rcvd rxEthpkt
    let ipsrc := ippktSrc (ip.pkt rcvd)
    let ipdst := ippktDst (ip.pkt rcvd)
    let subproto := ippktSubproto (ip.pkt rcvd)
    let opened := ip.modifyPkt rcvd rxIppkt
    -- There is no `else`: a packet for another address is not freed here.
    if ipdst = defaultip then dispatchIp app tick opened rcvd ipsrc subproto else some opened
  else
    (dumpEthpkt (world.modifyPkt rcvd pktReset) rcvd).map fun dumped => freePkt dumped rcvd

/-! ### The loop -/

/-- Ticks of the timer between two pings. -/
def pingInterval : App → BitVec 32
  | .fftmain => 200
  | .pingtest => 20

def pingStep (app : App) (tick : Tick) (loop : Loop) : Loop :=
  if pingInterval app ≤ loop.now - loop.lastping ∧ loop.world.waitingPkt = none then
    { loop with
      world := icmpSendPing tick.board loop.world hostIp
      lastping := loop.now }
  else loop

/-- Only `fftmain` has this one. -/
def timeoutStep (app : App) (tick : Tick) (loop : Loop) : Loop :=
  if app = .fftmain ∧ 5 ≤ loop.now - loop.lastfft ∧ loop.world.waitingPkt = none then
    { loop with
      world := ffttimeout tick.board tick.peek loop.world
      lastfft := loop.now }
  else loop

def timerStep (app : App) (tick : Tick) (loop : Loop) : Loop :=
  timeoutStep app tick (pingStep app tick { loop with now := loop.now + 1 })

/-- Take in a frame: `rx_pkt` and the extra reference of the loop. -/
def takeFrame (world : World) (frame : NetPacket) : World :=
  let allocated := { world with arena := world.arena.alloc frame }
  { allocated with arena := allocated.arena.retain usageLens world.arena.next }

def rxStep (app : App) (tick : Tick) (world : World) : Option World :=
  match rxPkt tick.rxcmd tick.netbrx tick.heap with
  | none => some world
  | some frame =>
      (dispatch app tick (takeFrame world frame) world.arena.next).map fun handled =>
        freePkt handled world.arena.next

def txStep (tick : Tick) (world : World) : World :=
  match world.waitingPkt with
  | none => world
  | some pkt => txPkt tick.board { world with waitingPkt := none } pkt

def iteration (app : App) (tick : Tick) (loop : Loop) : Option Loop :=
  let timed := if tick.timer then timerStep app tick loop else loop
  let served := if tick.netrx then rxStep app tick timed.world else some timed.world
  served.map fun world =>
    { timed with world := if tick.nettx then txStep tick world else world }

/-- Before the first packet. -/
def World.empty : World where
  arena := { cells := fun _ => none, next := 0, freed := [] }
  waitingPkt := none
  ipPktid := bigPrime * 241
  icmppktId := 0
  arpTable := List.replicate 8 {}
  routerMacAddr := 0
  txReads := 0
  sent := []
  device := {}
  fftOps := []

/-- Both programs send one ping before they enter the loop. -/
def Loop.start (board : Board) : Loop where
  world := icmpSendPing board World.empty hostIp
  now := 0
  lastping := 0
  lastfft := 0

/-- The states in which an iteration of the loop can begin. -/
inductive Reachable (app : App) : Loop → Prop where
  | start (board : Board) : Reachable app (Loop.start board)
  | next {loop after : Loop} (tick : Tick) : Reachable app loop →
      iteration app tick loop = some after → Reachable app after

end ZipVersa.Net
