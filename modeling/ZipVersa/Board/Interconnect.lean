import Mathlib.Tactic.Common
import ZipVersa.Board.Memdev

/-! The logic of the bus `wb` in `main.v`: the decoding of addresses, the stall
and error lines, the registers of the single-word peripherals, and the registers
through which acknowledgement and data return. -/

set_option autoImplicit false

namespace ZipVersa.Board

open Lib

/-- The peripherals of the bus, in the order of `main.v`. -/
inductive Device where
  | flashcfg
  | enetscope
  | flashdbg
  | uart
  | net1
  | wbSio
  | mdio1
  | netb
  | wbfft
  | bkram
  | flash
  deriving DecidableEq, Repr

namespace Device

def all : List Device :=
  [flashcfg, enetscope, flashdbg, uart, net1, wbSio, mdio1, netb, wbfft, bkram, flash]

/-- What `wb_addr[22:18]` is masked with. -/
def mask : Device → BitVec 5
  | flash => 0x10
  | _ => 0x1f

def base : Device → BitVec 5
  | flashcfg => 0x01
  | enetscope => 0x02
  | flashdbg => 0x03
  | uart => 0x04
  | net1 => 0x05
  | wbSio => 0x06
  | mdio1 => 0x07
  | netb => 0x08
  | wbfft => 0x09
  | bkram => 0x0a
  | flash => 0x10

/-- The select line of a peripheral. -/
def sel (device : Device) (addr : BitVec 23) : Bool :=
  addr.extractLsb' 18 5 &&& device.mask == device.base

/-- `r_wb_bus_select` -/
def code : Device → BitVec 4
  | flashcfg => 0
  | enetscope => 1
  | flashdbg => 2
  | uart => 3
  | net1 => 4
  | wbSio => 5
  | mdio1 => 6
  | netb => 7
  | wbfft => 8
  | bkram => 9
  | flash => 10

/-- The peripheral at an address, as the `casez` has it. -/
def ofAddr (addr : BitVec 23) : Option Device := all.find? fun device => device.sel addr

/-- The peripheral whose data is returned. -/
def ofCode (select : BitVec 4) : Device :=
  (all.find? fun device => device.code == select).getD flash

/-- The peripheral that answers: `flashcfg` has its answers with those of `flash`,
and the packet buffers of `netb` are in `net1`. -/
def port : Device → Device
  | flashcfg => flash
  | netb => net1
  | device => device

theorem mem_all (device : Device) : device ∈ all := by cases device <;> decide

instance decidableForall {Holds : Device → Prop} [DecidablePred Holds] :
    Decidable (∀ device, Holds device) :=
  decidable_of_iff (∀ device ∈ all, Holds device)
    ⟨fun each device => each device device.mem_all, fun each device _ => each device⟩

theorem ofCode_code (device : Device) : ofCode device.code = device := by
  cases device <;> rfl

/-- The select lines exclude one another. -/
theorem sel_iff (device : Device) (addr : BitVec 23) :
    device.sel addr = true ↔ ofAddr addr = some device := by
  unfold ofAddr sel
  generalize addr.extractLsb' 18 5 = top
  cases device <;> (revert top; decide)

end Device

/-- What a peripheral drives. -/
structure Lines where
  stall : Bool
  ack : Bool
  data : BitVec 32
  deriving DecidableEq, Repr

/-- The registers of the bus. -/
structure Fabric where
  rWbSioAck : Bool
  rWbSioData : BitVec 32
  rWbBusSelect : BitVec 4
  wbAck : Bool
  wbIdata : BitVec 32
  wbManyAck : Bool
  deriving DecidableEq, Repr

/-- The bus and the peripherals at one clock; `singles` are the words of the
single-word peripherals. -/
structure WbClock where
  cyc : Bool
  stb : Bool
  request : WbRequest 23 32
  devices : Device → Lines
  singles : BitVec 4 → BitVec 32

/-- The bus with its block RAM. -/
structure WbBus where
  fabric : Fabric
  ram : Memdev 14

/-- The word that is read of the single-word peripherals. -/
def single (singles : BitVec 4 → BitVec 32) (addr : BitVec 23) : BitVec 32 :=
  if addr.extractLsb' 0 4 ≤ 0xa#4 then singles (addr.extractLsb' 0 4) else singles 0xb#4

/-- The request as the block RAM sees it. -/
def ramRequest (request : WbRequest 23 32) : WbRequest 14 32 :=
  ⟨request.we, request.addr.extractLsb' 0 14, request.data, request.sel⟩

namespace WbBus

/-- The lines of each peripheral; those of the bus itself and of the block RAM
come from its registers, and two are tied off for another that answers. -/
def lines (bus : WbBus) (devices : Device → Lines) : Device → Lines
  | .flashcfg => ⟨false, false, (devices .flash).data⟩
  | .netb => ⟨false, false, (devices .net1).data⟩
  | .wbSio => ⟨false, bus.fabric.rWbSioAck, bus.fabric.rWbSioData⟩
  | .bkram => ⟨false, bus.ram.oWbAck, bus.ram.oWbData⟩
  | device => devices device

/-- `wb_stall` -/
def stall (bus : WbBus) (addr : BitVec 23) (devices : Device → Lines) : Bool :=
  Device.all.any fun device => device.sel addr && (bus.lines devices device).stall

/-- `wb_none_sel` -/
def noneSel (stb : Bool) (addr : BitVec 23) : Bool :=
  stb && Device.all.all fun device => !device.sel addr

/-- `wb_err` -/
def err (bus : WbBus) (stb : Bool) (addr : BitVec 23) : Bool :=
  (stb && noneSel stb addr) || bus.fabric.wbManyAck

/-- Some peripheral acknowledges. -/
def anyAck (bus : WbBus) (devices : Device → Lines) : Bool :=
  Device.all.any fun device => (bus.lines devices device).ack

/-- More than one does. -/
def manyAck (bus : WbBus) (devices : Device → Lines) : Bool :=
  1 < Device.all.countP fun device => (bus.lines devices device).ack

/-- One rising edge. -/
def step (bus : WbBus) (clock : WbClock) : WbBus where
  fabric :=
    { rWbSioAck := clock.stb && Device.wbSio.sel clock.request.addr
      rWbSioData := single clock.singles clock.request.addr
      rWbBusSelect :=
        if clock.stb && !bus.stall clock.request.addr clock.devices then
          ((Device.ofAddr clock.request.addr).map Device.code).getD bus.fabric.rWbBusSelect
        else bus.fabric.rWbBusSelect
      wbAck := clock.cyc && bus.anyAck clock.devices
      wbIdata := (bus.lines clock.devices (Device.ofCode bus.fabric.rWbBusSelect)).data
      wbManyAck := clock.cyc && bus.manyAck clock.devices }
  ram := bus.ram.step clock.cyc (clock.stb && Device.bkram.sel clock.request.addr)
    (ramRequest clock.request)

/-- The peripheral that accepts the request of a clock. -/
def accepts (bus : WbBus) (clock : WbClock) : Option Device :=
  if clock.stb && !bus.stall clock.request.addr clock.devices then
    Device.ofAddr clock.request.addr
  else none

end WbBus

/-! ### A bus cycle -/

/-- A request that a peripheral has accepted, with the word that the peripheral
held then, where that is known. -/
structure Due where
  request : WbRequest 23 32
  device : Device
  word : Option (BitVec 32)
  deriving DecidableEq, Repr

/-- An answer: what it is to, by whom, and its data. -/
structure Reply where
  due : Due
  sender : Device
  data : BitVec 32
  deriving DecidableEq, Repr

/-- The answer is the one that is due. -/
def Reply.Right (reply : Reply) : Prop :=
  reply.sender = reply.due.device.port ∧ ∀ word, reply.due.word = some word → reply.data = word

/-- The bus, what its block RAM holds for its masters, and of this bus cycle the
requests that are to be answered, the answers of the peripherals, and the data
that came back with `wb_ack`. -/
structure WbRun where
  bus : WbBus
  contents : Words 14
  asked : List Due
  pending : List Due
  replies : List Reply
  returned : List (BitVec 32)

namespace WbRun

/-- What is due for the request of a clock. -/
def due (run : WbRun) (clock : WbClock) : Option Due :=
  (run.bus.accepts clock).map fun device =>
    ⟨clock.request, device,
      match device with
      | .bkram => some (run.contents (clock.request.addr.extractLsb' 0 14))
      | .wbSio => some (single clock.singles clock.request.addr)
      | _ => none⟩

/-- Those that are still to be answered behind the answer of a clock. -/
def left (run : WbRun) (clock : WbClock) : List Due :=
  run.pending.drop (if run.bus.anyAck clock.devices then 1 else 0)

/-- The answer of a clock. -/
def reply (run : WbRun) (clock : WbClock) : Option Reply :=
  match Device.all.find? fun device => (run.bus.lines clock.devices device).ack, run.pending with
  | some device, due :: _ => some ⟨due, device, (run.bus.lines clock.devices device).data⟩
  | _, _ => none

def step (run : WbRun) (clock : WbClock) : WbRun where
  bus := run.bus.step clock
  contents :=
    if clock.stb && Device.bkram.sel clock.request.addr then
      run.contents.serve (ramRequest clock.request)
    else run.contents
  asked := if clock.cyc then run.asked ++ (run.due clock).toList else []
  pending := if clock.cyc then run.left clock ++ (run.due clock).toList else []
  replies := if clock.cyc then run.replies ++ (run.reply clock).toList else []
  returned :=
    if clock.cyc then
      run.returned ++ if run.bus.fabric.wbAck then [run.bus.fabric.wbIdata] else []
    else []

/-- Any registers, outside a bus cycle. -/
def start (bus : WbBus) : WbRun := ⟨bus, bus.ram.settled, [], [], [], []⟩

/-- The part of the others: a strobe is in a bus cycle, a peripheral acknowledges
what it was asked for in this cycle, and none is asked while an answer of another
is outstanding. -/
structure Legal (run : WbRun) (clock : WbClock) : Prop where
  strobe : clock.stb = true → clock.cyc = true
  answers : ∀ device, clock.cyc = true → (clock.devices device).ack = true →
    device ∈ run.pending.map fun due => due.device.port
  apart : ∀ device, run.bus.accepts clock = some device →
    ∀ due ∈ run.left clock, due.device.port = device.port

inductive Reaches : WbRun → Prop where
  | start (bus : WbBus) (clock : WbClock) : clock.cyc = false → clock.stb = false →
      Reaches ((start bus).step clock)
  | step {run : WbRun} {clock : WbClock} : Reaches run → run.Legal clock →
      Reaches (run.step clock)

/-- The bus serves its cycle: every answer is that of the peripheral which the
request was for, in the order of the requests, and comes back with its own data;
no two answers collide, and the block RAM holds what it is said to hold. -/
structure Serves (run : WbRun) : Prop where
  order : run.replies.map Reply.due ++ run.pending = run.asked
  right : ∀ reply ∈ run.replies, reply.Right
  back : run.returned ++ (if run.bus.fabric.wbAck then [run.bus.fabric.wbIdata] else []) =
    run.replies.map Reply.data
  one : run.bus.fabric.wbManyAck = false
  memory : run.bus.ram.settled = run.contents

/-! ### One clock -/

variable {run : WbRun} {clock : WbClock} {device : Device}

/-- A bus cycle under way: the answers that are outstanding are all of one
peripheral, and the bus has its number. -/
structure Kept (run : WbRun) : Prop extends Serves run where
  same : ∀ due ∈ run.pending, ∀ due' ∈ run.pending, due.device.port = due'.device.port
  select : ∀ due ∈ run.pending.getLast?, run.bus.fabric.rWbBusSelect = due.device.code
  words : ∀ due ∈ run.pending, due.word ≠ none → due.device = .wbSio ∨ due.device = .bkram
  sio : run.bus.fabric.rWbSioAck = true → ∃ due, run.pending = [due] ∧ due.device = .wbSio ∧
    due.word = some run.bus.fabric.rWbSioData
  sioOwed : ∀ due ∈ run.pending, due.device = .wbSio → run.bus.fabric.rWbSioAck = true
  ram : (run.pending.filter fun due => due.device == .bkram).map Due.word =
    run.bus.ram.answers.map some

theorem port_eq_wbSio : device.port = .wbSio ↔ device = .wbSio := by
  cases device <;> decide

theorem port_eq_bkram : device.port = .bkram ↔ device = .bkram := by
  cases device <;> decide

/-- `flashcfg` shows the data of `flash`, and `netb` that of `net1`. -/
theorem data_port (bus : WbBus) (devices : Device → Lines) (device : Device) :
    (bus.lines devices device.port).data = (bus.lines devices device).data := by
  cases device <;> rfl

theorem stall_of_ofAddr {addr : BitVec 23} (at' : Device.ofAddr addr = some device) (bus : WbBus)
    (devices : Device → Lines) : bus.stall addr devices = (bus.lines devices device).stall := by
  have only (other : Device) : (other.sel addr && (bus.lines devices other).stall) = true ↔
      other = device ∧ (bus.lines devices device).stall = true := by
    rw [Bool.and_eq_true, Device.sel_iff, at', Option.some.injEq]
    constructor
    · rintro ⟨rfl, stalls⟩
      exact ⟨rfl, stalls⟩
    · rintro ⟨rfl, stalls⟩
      exact ⟨rfl, stalls⟩
  rw [WbBus.stall, Bool.eq_iff_iff, List.any_eq_true]
  constructor
  · rintro ⟨other, -, stalls⟩
    exact ((only other).mp stalls).2
  · intro stalls
    exact ⟨device, device.mem_all, (only device).mpr ⟨rfl, stalls⟩⟩

/-- A peripheral that never stalls accepts each request for it. -/
theorem accepts_iff (ready : ∀ devices, (run.bus.lines devices device).stall = false) :
    (clock.stb && device.sel clock.request.addr) = true ↔
      run.bus.accepts clock = some device := by
  rw [Bool.and_eq_true, Device.sel_iff, WbBus.accepts]
  constructor
  · rintro ⟨stb, at'⟩
    rw [if_pos (by rw [stb, stall_of_ofAddr at', ready]; rfl), at']
  · intro accepted
    split at accepted
    · exact ⟨(Bool.and_eq_true_iff.mp ‹_›).1, accepted⟩
    · cases accepted

theorem sio_accepts : (clock.stb && Device.wbSio.sel clock.request.addr) = true ↔
    run.bus.accepts clock = some .wbSio := accepts_iff fun _ => rfl

theorem ram_accepts : (clock.stb && Device.bkram.sel clock.request.addr) = true ↔
    run.bus.accepts clock = some .bkram := accepts_iff fun _ => rfl

/-- Who acknowledges has been asked. -/
theorem Kept.acks (kept : Kept run) (legal : run.Legal clock) (cyc : clock.cyc = true)
    (ack : (run.bus.lines clock.devices device).ack = true) :
    ∃ due ∈ run.pending, due.device.port = device := by
  cases device with
  | flashcfg => cases ack
  | netb => cases ack
  | wbSio =>
      obtain ⟨due, alone, own, -⟩ := kept.sio ack
      exact ⟨due, by rw [alone]; exact List.mem_singleton_self due, port_eq_wbSio.mpr own⟩
  | bkram =>
      have some : run.bus.ram.oWbAck = true := ack
      have owed := kept.ram
      rw [Memdev.answers, if_pos some] at owed
      cases filtered : run.pending.filter fun due => due.device == .bkram with
      | nil => simp [filtered] at owed
      | cons due rest =>
          have member : due ∈ run.pending.filter fun due => due.device == .bkram := by
            rw [filtered]
            exact List.mem_cons_self
          obtain ⟨member, own⟩ := List.mem_filter.mp member
          exact ⟨due, member, port_eq_bkram.mpr (by simpa using own)⟩
  | _ => exact List.mem_map.mp (legal.answers _ cyc ack)

theorem Kept.one_acks {other : Device} (kept : Kept run) (legal : run.Legal clock)
    (cyc : clock.cyc = true) (ack : (run.bus.lines clock.devices device).ack = true)
    (ack' : (run.bus.lines clock.devices other).ack = true) : other = device := by
  obtain ⟨due, member, rfl⟩ := kept.acks legal cyc ack
  obtain ⟨due', member', rfl⟩ := kept.acks legal cyc ack'
  exact kept.same due' member' due member

theorem Kept.manyAck_eq (kept : Kept run) (legal : run.Legal clock) (cyc : clock.cyc = true) :
    run.bus.manyAck clock.devices = false := by
  rw [WbBus.manyAck, decide_eq_false_iff_not, Nat.not_lt]
  by_cases some : ∃ device, (run.bus.lines clock.devices device).ack = true
  · obtain ⟨device, ack⟩ := some
    calc Device.all.countP (fun other => (run.bus.lines clock.devices other).ack)
        ≤ Device.all.countP (fun other => other == device) := by
          refine List.countP_mono_left fun other _ ack' => ?_
          exact beq_iff_eq.mpr (kept.one_acks legal cyc ack ack')
      _ ≤ 1 := by cases device <;> decide
  · have none : Device.all.countP (fun other => (run.bus.lines clock.devices other).ack) = 0 :=
      List.countP_eq_zero.mpr fun other _ ack => some ⟨other, ack⟩
    rw [none]
    exact Nat.zero_le 1

/-- A clock without an acknowledgement, or the one there is with what it is to. -/
theorem Kept.answer (kept : Kept run) (legal : run.Legal clock) (cyc : clock.cyc = true) :
    (run.bus.anyAck clock.devices = false ∧ run.reply clock = none ∧
      ∀ device, (run.bus.lines clock.devices device).ack = false) ∨
    (run.bus.anyAck clock.devices = true ∧ ∃ due rest, run.pending = due :: rest ∧
      (run.bus.lines clock.devices due.device.port).ack = true ∧
      run.reply clock =
        some ⟨due, due.device.port, (run.bus.lines clock.devices due.device.port).data⟩) := by
  cases any : run.bus.anyAck clock.devices with
  | false =>
      have none (device : Device) : (run.bus.lines clock.devices device).ack = false := by
        have each := List.any_eq_false.mp any device device.mem_all
        simpa using each
      refine .inl ⟨rfl, ?_, none⟩
      have nobody : Device.all.find? (fun device => (run.bus.lines clock.devices device).ack) =
          Option.none := List.find?_eq_none.mpr fun device _ => by simp [none device]
      rw [reply, nobody]
  | true =>
      obtain ⟨device, -, ack⟩ := List.any_eq_true.mp any
      have found : Device.all.find? (fun device => (run.bus.lines clock.devices device).ack) =
          some device := by
        cases search : Device.all.find? fun device => (run.bus.lines clock.devices device).ack with
        | none => exact absurd ack (List.find?_eq_none.mp search device device.mem_all)
        | some other =>
            have ack' : (run.bus.lines clock.devices other).ack = true :=
              List.find?_some (p := fun device => (run.bus.lines clock.devices device).ack) search
            rw [kept.one_acks legal cyc ack ack']
      obtain ⟨due, member, own⟩ := kept.acks legal cyc ack
      cases waiting : run.pending with
      | nil => rw [waiting] at member; cases member
      | cons first rest =>
          have head : first ∈ run.pending := by
            rw [waiting]
            exact List.mem_cons_self
          have port : first.device.port = device := (kept.same first head due member).trans own
          refine .inr ⟨rfl, first, rest, rfl, by rw [port]; exact ack, ?_⟩
          rw [reply, found, waiting, port]

/-- What is acknowledged is the word that was held. -/
theorem Kept.word (kept : Kept run) {due : Due} {rest : List Due} (waiting : run.pending = due :: rest)
    (ack : (run.bus.lines clock.devices due.device.port).ack = true) {word : BitVec 32}
    (known : due.word = some word) :
    (run.bus.lines clock.devices due.device.port).data = word := by
  have member : due ∈ run.pending := by
    rw [waiting]
    exact List.mem_cons_self
  rcases kept.words due member (by simp [known]) with own | own
  · obtain ⟨due', alone, -, word'⟩ := kept.sio (kept.sioOwed due member own)
    rw [waiting] at alone
    obtain ⟨rfl, -⟩ := List.cons.inj alone
    rw [known, Option.some.injEq] at word'
    rw [own, word']
    rfl
  · have acks : run.bus.ram.oWbAck = true := by rwa [own] at ack
    have owed := kept.ram
    rw [waiting, List.filter_cons_of_pos (by simp [own]), Memdev.answers, if_pos acks] at owed
    have first : due.word = some run.bus.ram.oWbData := by simpa using (List.cons.inj owed).1
    rw [known, Option.some.injEq] at first
    rw [own, first]
    rfl

/-- The requests for the block RAM that are left are those whose answers are. -/
theorem Kept.ram_left (kept : Kept run) (legal : run.Legal clock) (cyc : clock.cyc = true) :
    ((run.left clock).filter fun due => due.device == .bkram).map Due.word =
      (run.bus.ram.answers.drop (if run.bus.ram.oWbAck then 1 else 0)).map some := by
  have owed := kept.ram
  rcases kept.answer legal cyc with ⟨any, -, silent⟩ | ⟨any, due, rest, waiting, ack, -⟩
  · have none : run.bus.ram.oWbAck = false := silent .bkram
    rw [left, any, none]
    exact owed
  · have others (due' : Due) (member : due' ∈ rest) : due'.device.port = due.device.port := by
      refine kept.same due' ?_ due ?_
      · rw [waiting]
        exact List.mem_cons_of_mem _ member
      · rw [waiting]
        exact List.mem_cons_self
    rw [left, any, waiting, if_pos rfl, List.drop_one, List.tail_cons]
    by_cases own : due.device = .bkram
    · have acks : run.bus.ram.oWbAck = true := by rwa [own] at ack
      rw [waiting, List.filter_cons_of_pos (by simp [own]), List.map_cons] at owed
      rw [acks, if_pos rfl, List.drop_one, List.map_tail, ← owed, List.tail_cons]
    · have foreign : due.device.port ≠ .bkram := mt port_eq_bkram.mp own
      have nothing : (rest.filter fun due => due.device == .bkram) = [] := by
        refine List.filter_eq_nil_iff.mpr fun due' member => ?_
        have port := others due' member
        simp only [beq_iff_eq]
        rintro own'
        rw [own'] at port
        exact foreign port.symm
      rw [waiting, List.filter_cons_of_neg (by simp [own]), nothing] at owed
      have empty : run.bus.ram.answers = [] := by
        cases answers : run.bus.ram.answers with
        | nil => rfl
        | cons answer later => simp [answers] at owed
      rw [nothing, empty, List.drop_nil]
      rfl


/-- What is accepted at a clock, and for whom. -/
theorem due_eq_some {due : Due} (made : run.due clock = some due) :
    run.bus.accepts clock = some due.device ∧ due.request = clock.request ∧
      (due.word ≠ none → due.device = .wbSio ∨ due.device = .bkram) ∧
      (due.device = .wbSio → due.word = some (single clock.singles clock.request.addr)) ∧
      (due.device = .bkram →
        due.word = some (run.contents (clock.request.addr.extractLsb' 0 14))) := by
  obtain ⟨device, accepted, rfl⟩ := Option.map_eq_some_iff.mp made
  refine ⟨accepted, rfl, ?_, ?_, ?_⟩
  · cases device <;> simp
  · rintro rfl
    rfl
  · rintro rfl
    rfl

theorem due_eq_none (made : run.due clock = none) : run.bus.accepts clock = none :=
  Option.map_eq_none_iff.mp made

theorem left_sublist (run : WbRun) (clock : WbClock) {due : Due} (member : due ∈ run.left clock) :
    due ∈ run.pending := List.mem_of_mem_drop member

/-- A request for a single word has been answered when the next is accepted. -/
theorem Kept.sio_left (kept : Kept run) (legal : run.Legal clock) (cyc : clock.cyc = true)
    {due : Due} (member : due ∈ run.left clock) : due.device ≠ .wbSio := by
  intro own
  have member' := left_sublist run clock member
  have ack := kept.sioOwed due member' own
  obtain ⟨due', alone, -, -⟩ := kept.sio ack
  rcases kept.answer legal cyc with ⟨-, -, silent⟩ | ⟨any, -⟩
  · have none : (run.bus.lines clock.devices .wbSio).ack = false := silent .wbSio
    change run.bus.fabric.rWbSioAck = false at none
    rw [ack] at none
    cases none
  · rw [left, any, alone] at member
    exact absurd member List.not_mem_nil

/-- The answers so far, with that of a clock. -/
theorem Kept.serves_step (kept : Kept run) (legal : run.Legal clock) (cyc : clock.cyc = true) :
    Serves (run.step clock) := by
  have memory : (run.step clock).bus.ram.settled = (run.step clock).contents := by
    change (run.bus.ram.step _ _ _).settled = _
    rw [Memdev.settled_step, kept.memory]
    rfl
  have one : (run.step clock).bus.fabric.wbManyAck = false := by
    simp [WbRun.step, WbBus.step, kept.manyAck_eq legal cyc]
  rcases kept.answer legal cyc with ⟨any, none, -⟩ | ⟨any, due, rest, waiting, ack, answer⟩
  · refine ⟨?_, ?_, ?_, one, memory⟩
    · simp only [WbRun.step, cyc, if_true, none, left, any, Bool.false_eq_true, if_false,
        List.drop_zero, Option.toList_none, List.append_nil]
      rw [← List.append_assoc, kept.order]
    · simpa [WbRun.step, cyc, none] using kept.right
    · have back := kept.back
      simpa [WbRun.step, WbBus.step, cyc, none, any] using back
  · have order := kept.order
    refine ⟨?_, ?_, ?_, one, memory⟩
    · rw [waiting] at order
      simp only [WbRun.step, cyc, if_true, answer, left, any, waiting, Option.toList_some,
        List.drop_one, List.tail_cons, List.map_append, List.map_cons, List.map_nil]
      rw [← order]
      simp
    · intro reply member
      simp only [WbRun.step, cyc, if_true, answer, Option.toList_some, List.mem_append,
        List.mem_singleton] at member
      rcases member with before | rfl
      · exact kept.right reply before
      · exact ⟨rfl, fun word known => kept.word waiting ack known⟩
    · have shown : (run.bus.lines clock.devices
          (Device.ofCode run.bus.fabric.rWbBusSelect)).data =
            (run.bus.lines clock.devices due.device.port).data := by
        cases last : run.pending.getLast? with
        | none => simp [waiting] at last
        | some last' =>
            have member : last' ∈ run.pending := List.mem_of_getLast? last
            have head : due ∈ run.pending := by
              rw [waiting]
              exact List.mem_cons_self
            rw [kept.select last' last, Device.ofCode_code, ← data_port,
              kept.same last' member due head]
      have back := kept.back
      simp only [WbRun.step, WbBus.step, cyc, if_true, answer, any, Bool.and_self, shown,
        Option.toList_some, List.map_append, List.map_cons, List.map_nil]
      rw [back]

/-- What is outstanding after a clock. -/
theorem pending_step (run : WbRun) (cyc : clock.cyc = true) :
    (run.step clock).pending = run.left clock ++ (run.due clock).toList := by
  simp [WbRun.step, cyc]

theorem Kept.same_step (kept : Kept run) (legal : run.Legal clock) (cyc : clock.cyc = true) :
    ∀ due ∈ (run.step clock).pending, ∀ due' ∈ (run.step clock).pending,
      due.device.port = due'.device.port := by
  rw [pending_step run cyc]
  cases made : run.due clock with
  | none =>
      intro due member due' member'
      simp only [Option.toList_none, List.append_nil] at member member'
      exact kept.same due (left_sublist run clock member) due' (left_sublist run clock member')
  | some new =>
      obtain ⟨accepted, -⟩ := due_eq_some made
      have own (due : Due) (member : due ∈ run.left clock ++ [new]) :
          due.device.port = new.device.port := by
        rcases List.mem_append.mp member with before | now
        · exact legal.apart new.device accepted due before
        · rw [List.mem_singleton.mp now]
      intro due member due' member'
      rw [own due member, own due' member']

/-- The select register follows the requests accepted. -/
theorem rWbBusSelect_step (run : WbRun) (clock : WbClock) :
    (run.step clock).bus.fabric.rWbBusSelect =
      ((run.bus.accepts clock).map Device.code).getD run.bus.fabric.rWbBusSelect := by
  rw [WbBus.accepts]
  simp only [WbRun.step, WbBus.step]
  split <;> rfl

theorem Kept.select_step (kept : Kept run) (cyc : clock.cyc = true) :
    ∀ due ∈ (run.step clock).pending.getLast?,
      (run.step clock).bus.fabric.rWbBusSelect = due.device.code := by
  rw [pending_step run cyc, rWbBusSelect_step]
  intro due member
  cases made : run.due clock with
  | none =>
      rw [made, Option.toList_none, List.append_nil, left, List.getLast?_drop, Option.mem_def,
        Option.ite_none_left_eq_some] at member
      rw [due_eq_none made]
      exact kept.select due member.2
  | some new =>
      rw [made, Option.toList_some, List.getLast?_concat, Option.mem_def,
        Option.some.injEq] at member
      rw [(due_eq_some made).1, member]
      rfl

theorem Kept.words_step (kept : Kept run) (cyc : clock.cyc = true) :
    ∀ due ∈ (run.step clock).pending, due.word ≠ none →
      due.device = .wbSio ∨ due.device = .bkram := by
  rw [pending_step run cyc]
  intro due member
  rcases List.mem_append.mp member with before | now
  · exact kept.words due (left_sublist run clock before)
  · rw [Option.mem_toList] at now
    obtain ⟨-, -, known, -⟩ := due_eq_some now
    exact known

theorem rWbSioAck_step (run : WbRun) (clock : WbClock) :
    (run.step clock).bus.fabric.rWbSioAck = true ↔ run.bus.accepts clock = some .wbSio :=
  sio_accepts

/-- A request to the single-register slave finds no other outstanding. -/
theorem Kept.sio_alone (kept : Kept run) (legal : run.Legal clock) (cyc : clock.cyc = true)
    (accepted : run.bus.accepts clock = some .wbSio) : run.left clock = [] := by
  cases remaining : run.left clock with
  | nil => rfl
  | cons due rest =>
      have member : due ∈ run.left clock := by
        rw [remaining]
        exact List.mem_cons_self
      have port := legal.apart .wbSio accepted due member
      exact absurd (port_eq_wbSio.mp port) (kept.sio_left legal cyc member)

theorem Kept.sio_step (kept : Kept run) (legal : run.Legal clock) (cyc : clock.cyc = true)
    (ack : (run.step clock).bus.fabric.rWbSioAck = true) :
    ∃ due, (run.step clock).pending = [due] ∧ due.device = .wbSio ∧
      due.word = some (run.step clock).bus.fabric.rWbSioData := by
  have accepted := (rWbSioAck_step run clock).mp ack
  rw [pending_step run cyc, kept.sio_alone legal cyc accepted, List.nil_append]
  cases made : run.due clock with
  | none =>
      rw [due_eq_none made] at accepted
      cases accepted
  | some new =>
      obtain ⟨chosen, -, -, word, -⟩ := due_eq_some made
      rw [accepted, Option.some.injEq] at chosen
      exact ⟨new, rfl, chosen.symm, word chosen.symm⟩

theorem Kept.sioOwed_step (kept : Kept run) (legal : run.Legal clock) (cyc : clock.cyc = true) :
    ∀ due ∈ (run.step clock).pending, due.device = .wbSio →
      (run.step clock).bus.fabric.rWbSioAck = true := by
  rw [pending_step run cyc]
  intro due member own
  rcases List.mem_append.mp member with before | now
  · exact absurd own (kept.sio_left legal cyc before)
  · rw [Option.mem_toList] at now
    rw [rWbSioAck_step, (due_eq_some now).1, own]

theorem ram_answers_step (run : WbRun) (cyc : clock.cyc = true) :
    (run.step clock).bus.ram.answers =
      run.bus.ram.answers.drop (if run.bus.ram.oWbAck then 1 else 0) ++
        if clock.stb && Device.bkram.sel clock.request.addr then
          [run.bus.ram.settled (clock.request.addr.extractLsb' 0 14)]
        else [] := by
  change (run.bus.ram.step clock.cyc _ _).answers = _
  rw [cyc]
  exact Memdev.answers_step _ _ _

theorem Kept.ram_step (kept : Kept run) (legal : run.Legal clock) (cyc : clock.cyc = true) :
    ((run.step clock).pending.filter fun due => due.device == .bkram).map Due.word =
      (run.step clock).bus.ram.answers.map some := by
  rw [pending_step run cyc, ram_answers_step run cyc, List.map_append,
    ← kept.ram_left legal cyc, List.filter_append, List.map_append]
  congr 1
  cases made : run.due clock with
  | none =>
      have quiet : (clock.stb && Device.bkram.sel clock.request.addr) = false := by
        rw [← Bool.not_eq_true, ram_accepts, due_eq_none made]
        rintro ⟨⟩
      rw [quiet]
      rfl
  | some new =>
      obtain ⟨accepted, -, -, -, word⟩ := due_eq_some made
      rw [Option.toList_some]
      by_cases own : new.device = .bkram
      · rw [own] at accepted
        rw [if_pos (ram_accepts.mpr accepted), List.filter_cons_of_pos (by simp [own]), kept.memory]
        simp [word own]
      · have quiet : (clock.stb && Device.bkram.sel clock.request.addr) = false := by
          rw [← Bool.not_eq_true, ram_accepts, accepted, Option.some.injEq]
          exact own
        rw [quiet, List.filter_cons_of_neg (by simp [own])]
        rfl

theorem Kept.step (kept : Kept run) (legal : run.Legal clock) (cyc : clock.cyc = true) :
    Kept (run.step clock) where
  toServes := kept.serves_step legal cyc
  same := kept.same_step legal cyc
  select := kept.select_step cyc
  words := kept.words_step cyc
  sio := kept.sio_step legal cyc
  sioOwed := kept.sioOwed_step legal cyc
  ram := kept.ram_step legal cyc

/-- Outside a bus cycle nothing is outstanding. -/
theorem kept_idle (memory : run.bus.ram.settled = run.contents) (cyc : clock.cyc = false)
    (stb : clock.stb = false) : Kept (run.step clock) := by
  have silent : (run.step clock).bus.ram.answers = [] := by
    have idle := Memdev.answers_idle run.bus.ram (ramRequest clock.request)
    simpa [WbRun.step, WbBus.step, cyc, stb] using idle
  have pending_eq : (run.step clock).pending = [] := by simp [WbRun.step, cyc]
  refine ⟨⟨?_, ?_, ?_, ?_, ?_⟩, ?_, ?_, ?_, ?_, ?_, ?_⟩
  · simp [WbRun.step, cyc]
  · simp [WbRun.step, cyc]
  · simp [WbRun.step, WbBus.step, cyc]
  · simp [WbRun.step, WbBus.step, cyc]
  · change (run.bus.ram.step _ _ _).settled = _
    rw [Memdev.settled_step, memory]
    rfl
  · simp [pending_eq]
  · simp [pending_eq]
  · simp [pending_eq]
  · simp [WbRun.step, WbBus.step, stb]
  · simp [pending_eq]
  · rw [pending_eq, silent]
    rfl

theorem Reaches.kept (reaches : Reaches run) : Kept run := by
  induction reaches with
  | start bus clock cyc stb => exact kept_idle rfl cyc stb
  | @step run clock _ legal ih =>
      cases cyc : clock.cyc with
      | true => exact ih.step legal cyc
      | false =>
          cases stb : clock.stb with
          | false => exact kept_idle ih.memory cyc stb
          | true =>
              have opened := legal.strobe stb
              rw [cyc] at opened
              cases opened

/-- At every clock of every run, whatever the peripherals hold. -/
theorem wb_serves (reaches : Reaches run) : Serves run := reaches.kept.toServes

instance decidableLegal (run : WbRun) (clock : WbClock) : Decidable (run.Legal clock) :=
  decidable_of_iff
    ((clock.stb = true → clock.cyc = true) ∧
      (∀ device, clock.cyc = true → (clock.devices device).ack = true →
        device ∈ run.pending.map fun due => due.device.port) ∧
      (∀ device, run.bus.accepts clock = some device →
        ∀ due ∈ run.left clock, due.device.port = device.port))
    ⟨fun ⟨strobe, answers, apart⟩ => ⟨strobe, answers, apart⟩,
      fun legal => ⟨legal.strobe, legal.answers, legal.apart⟩⟩

/-- A clock of a bus cycle at which one peripheral may have an answer. -/
def asking (stb : Bool) (addr : BitVec 23) (answer : Option Device) : WbClock :=
  ⟨true, stb, ⟨false, addr, 0, 15⟩,
    fun device => if answer = some device then ⟨false, true, 0xf1a5⟩ else ⟨false, false, 0⟩,
    fun addr => addr.setWidth 32⟩

/-- The version is read, then a register of the flash controller, whose answer
comes from the flash, and then a packet buffer, whose answer comes from `net1`. -/
def versionFlashBuffer : List WbClock :=
  [asking true 0x18000b none, asking false 0 none, asking true 0x040000 none, asking false 0 none,
    asking false 0 (some .flash), asking true 0x200000 none, asking false 0 (some .net1),
    asking false 0 none, asking false 0 none]

def resting : WbRun :=
  (start ⟨⟨false, 0, 0, false, 0, false⟩,
    ⟨fun _ => 0, false, false, ⟨false, 0, 0, 0⟩, false, 0⟩⟩).step
      { asking false 0 none with cyc := false }

theorem reaches_resting : Reaches resting := .start _ _ rfl rfl

theorem version_flash_buffer :
    (clocked WbRun.step resting versionFlashBuffer).returned = [0xb, 0xf1a5, 0xf1a5] ∧
      Serves (clocked WbRun.step resting versionFlashBuffer) :=
  ⟨by decide +kernel,
    wb_serves (lawful_invariant (fun _ _ => .step) reaches_resting
      (by decide +kernel : Lawful WbRun.step Legal resting versionFlashBuffer))⟩

end WbRun

end ZipVersa.Board
