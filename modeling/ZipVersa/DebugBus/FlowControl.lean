import ZipVersa.DebugBus.Fifo
import ZipVersa.DebugBus.ReadCommand
import ZipVersa.DebugBus.Reader

/-! A `readv` and the device at work on it. The host keeps at most 1024 words
under way; with the one address codeword before them that is what the output
FIFO of `wbuconsole` and its register hold, so it never refuses a codeword. -/

set_option autoImplicit false

namespace ZipVersa.DebugBus

open Lib

/-! ### The device -/

/-- `wbuconsole`, from the serial port to the codewords that leave its output
FIFO. -/
structure Console where
  input : WbuInput
  padififo : Fifo 6 Word
  exec : Exec
  busoutfifo : Fifo 10 Word

/-- One clock of the device. `cwBusy` is whether the stages behind the output
FIFO are held up, by the serial transmitter in the end. -/
structure Tick where
  serial : Serial
  bus : Bus
  cwBusy : Bool

namespace Console

def fifoInStb (console : Console) : Bool := !console.exec.busy && console.padififo.emptyN

def fifoRd (console : Console) (tick : Tick) : Bool := console.busoutfifo.emptyN && !tick.cwBusy

def step (console : Console) (tick : Tick) : Console where
  input := console.input.step tick.serial
  padififo :=
    console.padififo.step console.input.dc.stb console.input.dc.word console.fifoInStb
  exec := console.exec.step console.fifoInStb console.padififo.data tick.bus
  busoutfifo := console.busoutfifo.step console.exec.outStb console.exec.outCodword
    (console.fifoRd tick)

/-- A codeword is dropped at the output FIFO. -/
def drops (console : Console) (tick : Tick) : Bool :=
  console.busoutfifo.refuses console.exec.outStb (console.fifoRd tick)

/-- The read results that leave the output FIFO at a clock. -/
def leaves (console : Console) (tick : Tick) : Nat :=
  if console.fifoRd tick && isData console.busoutfifo.data then 1 else 0

end Console

/-! ### The host and the lines between -/

/-- The device, the actions the host has yet to take, the characters on their
way to the device and the clocks since the last came in, the read results on
their way to the host, and the requests the bus has yet to acknowledge. -/
structure Link where
  console : Console
  todo : List TtyBus.Action
  line : List Byte
  since : Nat
  returning : Nat
  owed : Nat

/-- Host and device in any interleaving. The host waits in `readword` until a
result has come in; the serial line delivers characters in order, not too fast;
the bus acknowledges what it has taken, when it likes. -/
inductive Link.Step : Link → Link → Prop where
  | send {link : Link} {bytes : List Byte} {rest : List TtyBus.Action} :
      link.todo = .send bytes :: rest →
      Step link { link with todo := rest, line := link.line ++ bytes }
  | readword {link : Link} {rest : List TtyBus.Action} {others : Nat} :
      link.todo = .readword :: rest → link.returning = others + 1 →
      Step link { link with todo := rest, returning := others }
  | quiet {link : Link} {tick : Tick} :
      tick.serial.char = none → tick.bus.Fair link.owed link.console.exec →
      Step link { link with
        console := link.console.step tick
        since := link.since + 1
        returning := link.returning + link.console.leaves tick
        owed := owedAfter link.owed link.console.exec tick.bus }
  | char {link : Link} {tick : Tick} {byte : Byte} {line : List Byte} :
      tick.serial.char = some byte → link.line = byte :: line → 7 ≤ link.since →
      tick.bus.Fair link.owed link.console.exec →
      Step link { link with
        console := link.console.step tick
        line := line
        since := 0
        returning := link.returning + link.console.leaves tick
        owed := owedAfter link.owed link.console.exec tick.bus }

/-- Everything that can come of a start. -/
inductive Link.Reaches (start : Link) : Link → Prop where
  | start : Reaches start start
  | step {link later : Link} : Reaches start link → Link.Step link later → Reaches start later

/-- A device at rest, with nothing on its way from it or to it. -/
structure Console.Rests (console : Console) (decoder : Decoder) : Prop where
  tracks : Tracks console.input decoder
  ready : decoder.Ready
  padififo : console.padififo.Sound 0
  padififoEmpty : console.padififo.emptyN = false
  state : console.exec.state = .idle
  cyc : console.exec.cyc = false
  stb : console.exec.stb = false
  outStb : console.exec.outStb = false
  busoutfifo : console.busoutfifo.Sound 0
  busoutfifoEmpty : console.busoutfifo.emptyN = false

/-- The start of a `readv` that takes these actions. -/
def Link.starting (console : Console) (actions : List TtyBus.Action) : Link :=
  ⟨console, actions, [], 7, 0, 0⟩

/-! ### What the host asks for -/

/-- A codeword of a read: no write, and no read of nothing. -/
structure Harmless (word : Word) : Prop where
  notWrite : ∀ inc data, decode word ≠ .write inc data
  positive : ∀ inc len, decode word = .read inc len → 0 < len.toNat

/-- A host that sends at most one address, before everything else, and never
has more than 1024 words under way. -/
structure Planned (decoder : Decoder) (actions : List TtyBus.Action) : Prop where
  harmless : ∀ word ∈ observed Decoder.feed Decoder.emit decoder (TtyBus.sent actions),
    Harmless word
  order : ∃ address reads, observed Decoder.feed Decoder.emit decoder (TtyBus.sent actions) =
    address ++ reads ∧ address.length ≤ 1 ∧ ∀ word ∈ reads, word.extractLsb' 35 1 ≠ 0#1
  balanced : ∀ done, done <+: actions →
    lens ((observed Decoder.feed Decoder.emit decoder (TtyBus.sent done)).map decode) ≤
      readwords done + 1024

theorem harmless_of_block {inc : Bool} {block : Nat} (inside : 0 < block ∧ block ≤ 512) {word : Word}
    (meaning : decode word = TtyBus.blockCommand inc block) :
    Harmless word ∧ word.extractLsb' 35 1 ≠ 0#1 := by
  unfold TtyBus.blockCommand at meaning
  split at meaning
  · rw [high_of_endOfWrites meaning]
    exact ⟨⟨by rw [meaning]; nofun, by rw [meaning]; nofun⟩, by decide⟩
  · rw [high_of_read meaning]
    refine ⟨⟨by rw [meaning]; nofun, ?_⟩, by decide⟩
    intro inc len read
    rw [meaning] at read
    cases read
    rw [BitVec.toNat_ofNat, Nat.mod_eq_of_lt (by omega)]
    exact inside.1

theorem harmless_of_reaches {bus : TtyBus} {a : BitVec 32} {command : Command}
    (reaches : bus.Reaches a command) {word : Word} (meaning : decode word = command) :
    Harmless word ∧ command.len = 0 := by
  rcases reaches with rfl | ⟨offset, rfl, -⟩
  · exact ⟨⟨by rw [meaning]; nofun, by rw [meaning]; nofun⟩, rfl⟩
  · exact ⟨⟨by rw [meaning]; nofun, by rw [meaning]; nofun⟩, rfl⟩

/-- `readv` is such a host. -/
theorem readv_planned (bus : TtyBus) (a : BitVec 32) (inc : Bool) (len : Nat)
    (aligned : a &&& 3 = 0) (lastAligned : bus.addrSet = true → bus.lastaddr &&& 3 = 0)
    {decoder : Decoder} (ready : decoder.Ready) :
    ∃ addressed actions, bus.readv a inc len = .some (addressed, actions) ∧
      Planned decoder actions := by
  by_cases zero : len = 0
  · refine ⟨bus, [], if_pos zero, nofun, ⟨[], [], rfl, Nat.zero_le _, nofun⟩, ?_⟩
    intro done early
    rw [List.prefix_nil.mp early]
    exact Nat.zero_le _
  have some : 0 < len := Nat.pos_of_ne_zero zero
  obtain ⟨addressed, ptr, before, between, hears, ready, form, shape⟩ :=
    readv_start bus a inc len aligned lastAligned some ready
  obtain ⟨actions, after, loop, heard, -⟩ :=
    TtyBus.readLoop_hears (TtyBus.Between.start len) hears ready (.inl some)
  obtain ⟨address, reads, split, said, rest⟩ := List.map_eq_append_iff.mp heard.heard
  have blocks : ∀ word ∈ reads, Harmless word ∧ word.extractLsb' 35 1 ≠ 0#1 := by
    intro word member
    have image : decode word ∈ reads.map decode := List.mem_map_of_mem member
    rw [rest] at image
    obtain ⟨block, among, meaning⟩ := List.mem_map.mp image
    exact harmless_of_block (blockLens_pos among) meaning.symm
  have head : before.length ≤ 1 ∧ lens before = 0 ∧ ∀ word ∈ address, Harmless word := by
    rcases form with ⟨rfl, -⟩ | ⟨command, rfl, reaches⟩
    · rw [List.map_eq_nil_iff.mp said]
      exact ⟨Nat.zero_le _, rfl, fun word member => nomatch member⟩
    · obtain ⟨word, rfl, meaning⟩ := List.map_eq_singleton_iff.mp said
      obtain ⟨harmless, none⟩ := harmless_of_reaches reaches meaning
      refine ⟨Nat.le_refl _, ?_, ?_⟩
      · rw [lens, List.map_singleton, List.sum_singleton, none]
      · intro other member
        rw [List.mem_singleton.mp member]
        exact harmless
  refine ⟨addressed, actions, shape actions loop, ?_, ⟨address, reads, split, ?_, ?_⟩, ?_⟩
  · rw [split]
    intro word member
    rcases List.mem_append.mp member with first | later
    · exact head.2.2 word first
    · exact (blocks word later).1
  · rw [← List.length_map decode, said]
    exact head.1
  · exact fun word member => (blocks word member).2
  · intro done early
    exact TtyBus.readLoop_balanced (TtyBus.Between.start len) hears ready head.2.1 loop early

/-! ### The books -/

def notData (word : Word) : Bool := !isData word

/-- The words of the output FIFO and the one before it that are of a kind. -/
def Console.holding (kind : Word → Bool) (console : Console) (count : Nat) : Nat :=
  (console.busoutfifo.queue count).countP kind + console.exec.out.countP kind

/-- A run so far: what the host has done, what has come in on the serial line,
and the codewords `wbuexec` has taken. -/
structure History where
  done : List TtyBus.Action
  serial : List Serial
  arrived : List Byte
  taken : List Word

/-- What is asked for but neither taken nor sent back is still somewhere in the
device; `held` and `count` are the fill of its FIFOs, `due` what `wbuexec` is
about to read. -/
structure Books (input : WbuInput) (actions : List TtyBus.Action) (link : Link) (past : History)
    (held count due : Nat) : Prop where
  split : actions = past.done ++ link.todo
  arriving : Arriving Serial.char 7 past.serial past.arrived link.since
  inputNow : link.console.input = clocked WbuInput.step input past.serial
  sent : TtyBus.sent past.done = past.arrived ++ link.line
  padififo : link.console.padififo.Sound held
  order : (past.taken ++ link.console.padififo.queue held).Sublist
    (observed WbuInput.step WbuInput.words input past.serial)
  reads : Reads link.console.exec link.owed due
  busoutfifo : link.console.busoutfifo.Sound count
  results : link.console.holding isData count + due + link.returning + readwords past.done ≤
    lens (past.taken.map decode)
  address : link.console.holding notData count + link.console.exec.announces ≤ 1
  first : past.taken = [] → link.console.holding notData count = 0

section Run

variable {input : WbuInput} {decoder : Decoder} {actions : List TtyBus.Action} {link : Link}
  {past : History} {held count due : Nat}

theorem lens_sublist {first second : List Command} (among : first.Sublist second) :
    lens first ≤ lens second := by
  unfold lens
  induction among with
  | slnil => exact Nat.le_refl _
  | cons command _ ih =>
      rw [List.map_cons, List.sum_cons]
      omega
  | cons_cons command _ ih =>
      rw [List.map_cons, List.map_cons, List.sum_cons, List.sum_cons]
      omega

/-- The codewords so far are among those of everything sent so far. -/
theorem Books.words (books : Books input actions link past held count due)
    (tracks : Tracks input decoder) :
    (observed WbuInput.step WbuInput.words input past.serial).Sublist
      (observed Decoder.feed Decoder.emit decoder (TtyBus.sent past.done)) := by
  have silent : ∀ clock ∈ List.replicate 7 (⟨false, 0⟩ : Serial), clock.char = none := by
    intro clock member
    rw [(List.mem_replicate.mp member).2]
    rfl
  have spaced := books.arriving.spaced silent (by simp)
  have words := (wbuinput_settles.run spaced tracks).2
  rw [observed_append] at words
  rw [books.sent, observed_append, ← words]
  exact (List.sublist_append_left _ _).trans (List.sublist_append_left _ _)

theorem Books.plan_words (books : Books input actions link past held count due)
    (tracks : Tracks input decoder) :
    (past.taken ++ link.console.padififo.queue held).Sublist
      (observed Decoder.feed Decoder.emit decoder (TtyBus.sent actions)) := by
  refine books.order.trans ((books.words tracks).trans ?_)
  rw [books.split, TtyBus.sent_append, observed_append]
  exact List.sublist_append_left _ _

/-- At most 1024 results and one address are in the output FIFO and before it. -/
theorem Books.bound (books : Books input actions link past held count due)
    (tracks : Tracks input decoder) (planned : Planned decoder actions) :
    link.console.holding isData count + link.console.holding notData count ≤ 1025 := by
  have early : past.done <+: actions := ⟨link.todo, books.split.symm⟩
  have balanced := planned.balanced past.done early
  have asked : lens (past.taken.map decode) ≤ lens ((observed Decoder.feed Decoder.emit decoder
      (TtyBus.sent past.done)).map decode) :=
    lens_sublist ((((List.sublist_append_left _ _).trans books.order).trans
      (books.words tracks)).map decode)
  have results := books.results
  have address := books.address
  omega

theorem countP_both (words : List Word) :
    words.countP isData + words.countP notData = words.length := by
  rw [List.length_eq_countP_add_countP isData]
  congr 2
  funext word
  cases kind : isData word <;> simp [notData, kind]

theorem Books.total (books : Books input actions link past held count due)
    (tracks : Tracks input decoder) (planned : Planned decoder actions) :
    (link.console.busoutfifo.queue count ++ link.console.exec.out).length ≤ 2 ^ 10 + 1 := by
  have bound := books.bound tracks planned
  rw [← countP_both, List.countP_append, List.countP_append]
  unfold Console.holding at bound
  omega

/-- So none is dropped. -/
theorem Books.keeps (books : Books input actions link past held count due)
    (tracks : Tracks input decoder) (planned : Planned decoder actions) (tick : Tick) :
    link.console.drops tick = false := by
  have bound := books.total tracks planned
  cases dropped : link.console.drops tick with
  | false => rfl
  | true =>
      simp only [Console.drops, Fifo.refuses, Bool.and_eq_true] at dropped
      obtain ⟨⟨offered, overflow⟩, -⟩ := dropped
      have full := books.busoutfifo.queue_length overflow (by decide)
      have one : link.console.exec.out.length = 1 := by simp [Exec.out, offered]
      rw [List.length_append] at bound
      omega

/-! ### One clock -/

/-- The codeword `wbuexec` takes at this clock. -/
def Console.takes (console : Console) : List Word :=
  if console.fifoInStb then [console.padififo.data] else []

theorem Console.fifoRd_emptyN (console : Console) (tick : Tick) (rd : console.fifoRd tick = true) :
    console.busoutfifo.emptyN = true := by
  simp only [Console.fifoRd, Bool.and_eq_true] at rd
  exact rd.1

theorem fifoInStb_emptyN {console : Console} (taken : console.fifoInStb = true) :
    console.padififo.emptyN = true := by
  simp only [Console.fifoInStb, Bool.and_eq_true] at taken
  exact taken.2

/-- The input FIFO passes on in order what it is given. -/
theorem padififo_order {console : Console} (sound : console.padififo.Sound held) (tick : Tick)
    {taken words : List Word} (order : (taken ++ console.padififo.queue held).Sublist words) :
    (taken ++ console.takes ++ (console.step tick).padififo.queue
      (console.padififo.next held console.input.dc.stb console.fifoInStb)).Sublist
      (words ++ console.input.words tick.serial) := by
  have queue := sound.step_queue console.input.dc.stb console.input.dc.word
    (fun taking : console.fifoInStb = true => fifoInStb_emptyN taking)
  have pushed : (if console.padififo.wWrite console.input.dc.stb console.fifoInStb
      then [console.input.dc.word] else []).Sublist (console.input.words tick.serial) := by
    cases strobe : console.input.dc.stb with
    | false => simp [Fifo.wWrite]
    | true =>
        have word : console.input.words tick.serial = [console.input.dc.word] := by
          simp [WbuInput.words, WbuInput.output, strobe]
        rw [word]
        split
        · exact List.Sublist.refl _
        · exact List.nil_sublist _
  have total : taken ++ console.takes ++ (console.step tick).padififo.queue
      (console.padififo.next held console.input.dc.stb console.fifoInStb) =
      taken ++ console.padififo.queue held ++ (if console.padififo.wWrite console.input.dc.stb
        console.fifoInStb then [console.input.dc.word] else []) := by
    change _ ++ Fifo.queue (Fifo.step _ _ _ _) _ = _
    rw [queue, Console.takes]
    cases taking : console.fifoInStb with
    | false => simp
    | true =>
        have head := console.padififo.queue_cons held (fifoInStb_emptyN taking)
        simp only [if_true]
        nth_rewrite 2 [head]
        simp
  rw [total]
  exact order.append pushed

/-- The output FIFO holds what it held and what was before it, less what left. -/
theorem busoutfifo_holding {console : Console} (sound : console.busoutfifo.Sound count) (tick : Tick)
    (kind : Word → Bool) :
    ((console.step tick).busoutfifo.queue (console.busoutfifo.next count console.exec.outStb
      (console.fifoRd tick))).countP kind +
        (if console.fifoRd tick && kind console.busoutfifo.data then 1 else 0) ≤
      console.holding kind count := by
  have legal := console.fifoRd_emptyN tick
  have queue := sound.step_queue console.exec.outStb console.exec.outCodword legal
  have pushed : (if console.busoutfifo.wWrite console.exec.outStb (console.fifoRd tick)
      then [console.exec.outCodword] else []).countP kind ≤ console.exec.out.countP kind := by
    unfold Exec.out
    cases strobe : console.exec.outStb with
    | false => simp [Fifo.wWrite]
    | true =>
        split
        · exact Nat.le_refl _
        · exact Nat.zero_le _
  change (Fifo.queue (Fifo.step _ _ _ _) _).countP kind + _ ≤ _
  rw [queue, List.countP_append, Console.holding]
  cases rd : console.fifoRd tick with
  | false =>
      rw [rd] at pushed
      simp
      omega
  | true =>
      have head := console.busoutfifo.queue_cons count (legal rd)
      rw [rd] at pushed
      rw [head, List.countP_cons]
      simp only [if_true, List.tail_cons, Bool.true_and]
      omega

/-- Once something was taken, no address follows. -/
theorem Planned.later {taken : List Word} {word : Word} (planned : Planned decoder actions)
    (among : (taken ++ [word]).Sublist
      (observed Decoder.feed Decoder.emit decoder (TtyBus.sent actions)))
    (some : taken ≠ []) : word.extractLsb' 35 1 ≠ 0#1 := by
  obtain ⟨address, reads, split, single, high⟩ := planned.order
  rw [split] at among
  obtain ⟨front, back, same, first, second⟩ := List.sublist_append_iff.mp among
  have long : 0 < taken.length := List.length_pos_iff.mpr some
  rcases List.eq_nil_or_concat back with rfl | ⟨others, last, rfl⟩
  · have lengths := congrArg List.length same
    have short := first.length_le
    simp at lengths
    omega
  · have lasts := congrArg List.getLast? same
    simp at lasts
    rw [lasts]
    exact high last (second.subset (by simp))

/-- What `wbuexec` does at a clock, with what it takes. -/
theorem exec_clock (books : Books input actions link past held count due)
    (tracks : Tracks input decoder) (planned : Planned decoder actions) {tick : Tick}
    (fair : tick.bus.Fair link.owed link.console.exec) :
    ∃ later, Reads (link.console.step tick).exec
        (owedAfter link.owed link.console.exec tick.bus) later ∧
      later + (link.console.step tick).exec.out.countP isData =
        due + lens (link.console.takes.map decode) ∧
      (link.console.holding notData count +
        ((link.console.step tick).exec.out.countP notData +
          (link.console.step tick).exec.announces) ≤ 1) ∧
      (past.taken ++ link.console.takes = [] →
        (link.console.step tick).exec.out.countP notData = 0) := by
  have address := books.address
  cases taking : link.console.fifoInStb with
  | false =>
      have stepped : (link.console.step tick).exec =
          link.console.exec.step false link.console.padififo.data tick.bus := by
        simp only [Console.step, taking]
      obtain ⟨later, reads, settles⟩ := books.reads.step link.console.padififo.data fair
      rw [← stepped] at reads settles
      refine ⟨later, reads, ?_, ?_, fun _ => settles.noAddress⟩
      · simp [Console.takes, taking, lens, settles.results]
      · have silent : (link.console.step tick).exec.out.countP notData = 0 := settles.noAddress
        have announces := settles.announces
        omega
  | true =>
      have stepped : (link.console.step tick).exec =
          link.console.exec.step true link.console.padififo.data tick.bus := by
        simp only [Console.step, taking]
      have ready : link.console.exec.busy = false := by
        simp only [Console.fifoInStb, Bool.and_eq_true, Bool.not_eq_true'] at taking
        exact taking.1
      have head := link.console.padififo.queue_cons held (fifoInStb_emptyN taking)
      have among : (past.taken ++ [link.console.padififo.data]).Sublist
          (observed Decoder.feed Decoder.emit decoder (TtyBus.sent actions)) := by
        refine List.Sublist.trans ?_ (books.plan_words tracks)
        rw [head]
        exact (List.singleton_sublist.mpr (.head _)).append_left _
      have harmless := planned.harmless link.console.padififo.data (among.subset (by simp))
      obtain ⟨rfl, reads, results, announced⟩ :=
        books.reads.codeword tick.bus ready harmless.notWrite harmless.positive
      rw [← stepped] at reads results announced
      refine ⟨_, reads, ?_, ?_, ?_⟩
      · simp [Console.takes, taking, lens, results]
      · change _ + ((link.console.step tick).exec.out.countP (fun word => !isData word) + _) ≤ 1
        split at announced
        · next low =>
            have none : past.taken = [] := by
              by_contra some
              exact planned.later among some low
            have empty := books.first none
            omega
        · omega
      · intro none
        simp [Console.takes, taking] at none

/-- The books after a clock. -/
theorem Books.clock (books : Books input actions link past held count due)
    (tracks : Tracks input decoder) (planned : Planned decoder actions) {tick : Tick}
    (fair : tick.bus.Fair link.owed link.console.exec) {arrived line : List Byte} {since : Nat}
    (arriving : Arriving Serial.char 7 (past.serial ++ [tick.serial]) arrived since)
    (sent : TtyBus.sent past.done = arrived ++ line) :
    ∃ past held count due, Books input actions
      { link with
        console := link.console.step tick
        line := line
        since := since
        returning := link.returning + link.console.leaves tick
        owed := owedAfter link.owed link.console.exec tick.bus } past held count due := by
  obtain ⟨later, reads, results, address, none⟩ := exec_clock books tracks planned fair
  have order := padififo_order books.padififo tick books.order
  have data := busoutfifo_holding books.busoutfifo tick isData
  have others := busoutfifo_holding books.busoutfifo tick notData
  have before := books.results
  refine ⟨⟨past.done, past.serial ++ [tick.serial], arrived, past.taken ++ link.console.takes⟩,
    _, _, later, ⟨books.split, arriving, ?_, sent, books.padififo.step (by decide) _ _ _, ?_, reads,
      books.busoutfifo.step (by decide) _ _ _, ?_, ?_, ?_⟩⟩
  · rw [clocked_append, ← books.inputNow]
    rfl
  · rw [observed_append, ← books.inputNow]
    simpa [observed] using order
  · dsimp only
    rw [List.map_append, lens_append, Console.holding, Console.leaves]
    omega
  · dsimp only
    rw [Console.holding]
    omega
  · intro empty
    have still := none empty
    have nothing := books.first (List.append_eq_nil_iff.mp empty).1
    dsimp only
    rw [Console.holding]
    omega

/-- The books after any step of host or device. -/
theorem Books.step (books : Books input actions link past held count due)
    (tracks : Tracks input decoder) (planned : Planned decoder actions) {later : Link}
    (step : Link.Step link later) :
    ∃ past held count due, Books input actions later past held count due := by
  cases step with
  | @send bytes rest next =>
      refine ⟨{ past with done := past.done ++ [.send bytes] }, held, count, due, ?_⟩
      refine { books with split := ?_, sent := ?_, results := ?_ }
      · rw [books.split, next, List.append_assoc]
        rfl
      · rw [TtyBus.sent_append, books.sent, List.append_assoc, TtyBus.sent_send]
        simp [TtyBus.sent]
      · have same : readwords (past.done ++ [.send bytes]) = readwords past.done := by
          simp [readwords]
        rw [same]
        exact books.results
  | @readword rest others next some =>
      refine ⟨{ past with done := past.done ++ [.readword] }, held, count, due, ?_⟩
      refine { books with split := ?_, sent := ?_, results := ?_ }
      · rw [books.split, next, List.append_assoc]
        rfl
      · rw [TtyBus.sent_append, books.sent]
        simp [TtyBus.sent]
      · have one : readwords (past.done ++ [.readword]) = readwords past.done + 1 := by
          simp [readwords]
        have results := books.results
        rw [one]
        dsimp only
        omega
  | @quiet tick silent fair =>
      exact books.clock tracks planned fair (.idle books.arriving silent) books.sent
  | @char tick byte line carried next spaced fair =>
      refine books.clock tracks planned fair (.item books.arriving spaced carried) ?_
      rw [books.sent, next, List.append_assoc, List.singleton_append]

end Run

theorem Console.Rests.books {console : Console} {decoder : Decoder} (rests : console.Rests decoder)
    (actions : List TtyBus.Action) :
    Books console.input actions (Link.starting console actions) ⟨[], [], [], []⟩ 0 0 0 := by
  have silent : console.exec.out = [] := by simp [Exec.out, rests.outStb]
  have empty : console.busoutfifo.queue 0 = [] := by simp [Fifo.queue, rests.busoutfifoEmpty]
  have none : console.padififo.queue 0 = [] := by simp [Fifo.queue, rests.padififoEmpty]
  have nothing : ∀ kind, console.holding kind 0 = 0 := by
    intro kind
    simp [Console.holding, empty, silent]
  refine ⟨rfl, .start, rfl, rfl, rests.padififo, ?_, .idle rests.state rests.cyc rests.stb rfl,
    rests.busoutfifo, ?_, ?_, fun _ => nothing _⟩
  · change ([] ++ console.padififo.queue 0).Sublist _
    rw [none]
    exact List.nil_sublist _
  · change console.holding isData 0 + 0 + 0 + 0 ≤ 0
    rw [nothing]
  · change console.holding notData 0 + console.exec.announces ≤ 1
    rw [nothing, Exec.announces]
    split <;> decide

theorem Console.Rests.run {console : Console} {decoder : Decoder} (rests : console.Rests decoder)
    {actions : List TtyBus.Action} (planned : Planned decoder actions) {link : Link}
    (run : (Link.starting console actions).Reaches link) :
    ∃ past held count due, Books console.input actions link past held count due := by
  induction run with
  | start => exact ⟨_, _, _, _, rests.books actions⟩
  | step _ step ih =>
      obtain ⟨past, held, count, due, books⟩ := ih
      exact books.step rests.tracks planned step

/-! ### Flow control -/

/-- In any run of a `readv`, however slow the transmitter, the output FIFO and
its register hold what `wbuexec` hands over: nothing is refused, and the queue
is what went in less what left. -/
theorem readv_never_drops (bus : TtyBus) (a : BitVec 32) (inc : Bool) (len : Nat)
    (aligned : a &&& 3 = 0) (lastAligned : bus.addrSet = true → bus.lastaddr &&& 3 = 0)
    {console : Console} {decoder : Decoder} (rests : console.Rests decoder) :
    ∃ addressed actions, bus.readv a inc len = some (addressed, actions) ∧
      ∀ link, (Link.starting console actions).Reaches link →
        ∃ count, link.console.busoutfifo.Sound count ∧
          (link.console.busoutfifo.queue count ++ link.console.exec.out).length ≤ 2 ^ 10 + 1 ∧
          ∀ tick, link.console.drops tick = false ∧
            ∃ after, (link.console.step tick).busoutfifo.Sound after ∧
              (link.console.step tick).busoutfifo.queue after =
                (if link.console.fifoRd tick then (link.console.busoutfifo.queue count).tail
                  else link.console.busoutfifo.queue count) ++ link.console.exec.out := by
  obtain ⟨addressed, actions, read, planned⟩ :=
    readv_planned bus a inc len aligned lastAligned rests.ready
  refine ⟨addressed, actions, read, fun link run => ?_⟩
  obtain ⟨past, held, count, due, books⟩ := rests.run planned run
  refine ⟨count, books.busoutfifo, books.total rests.tracks planned, fun tick => ?_⟩
  have kept := books.keeps rests.tracks planned tick
  refine ⟨kept, _, books.busoutfifo.step (by decide) _ _ _, ?_⟩
  refine (books.busoutfifo.step_queue _ _ (link.console.fifoRd_emptyN tick)).trans ?_
  congr 1
  simp only [Console.drops, Fifo.refuses] at kept
  unfold Exec.out Fifo.wWrite
  cases offered : link.console.exec.outStb with
  | false => rfl
  | true =>
      rw [offered] at kept
      cases overflow : link.console.busoutfifo.willOverflow <;>
        cases rd : link.console.fifoRd tick <;> simp [overflow, rd] at kept ⊢

/-- An empty FIFO. -/
def Fifo.reset (lg : Nat) : Fifo lg Word := ⟨fun _ => 0, 0, 0, false, true, false, 0, false⟩

theorem Fifo.reset_sound (lg : Nat) : (Fifo.reset lg).Sound 0 := by
  have positive : 0 < 2 ^ lg := Nat.two_pow_pos lg
  refine ⟨(BitVec.add_zero _).symm, Nat.zero_le _, ?_, rfl, rfl, fun _ => Nat.zero_le _⟩
  exact (decide_eq_false (by omega)).symm

/-- A device in reset. -/
def Console.reset : Console where
  input := WbuInput.reset
  padififo := Fifo.reset 6
  exec := ⟨.idle, false, false, false, 0, 0, false, 0, 0, 0, false, true, false, false, false, false⟩
  busoutfifo := Fifo.reset 10

theorem Console.reset_rests : Console.reset.Rests Decoder.reset :=
  ⟨reset_tracks, ⟨rfl, rfl⟩, Fifo.reset_sound 6, rfl, rfl, rfl, rfl, rfl, Fifo.reset_sound 10, rfl⟩

/-- A long read from reset. -/
theorem long_read_never_drops : ∃ addressed actions,
    TtyBus.fresh.readv 0x100 true 5000 = some (addressed, actions) ∧
      ∀ link, (Link.starting Console.reset actions).Reaches link →
        ∀ tick, link.console.drops tick = false := by
  obtain ⟨addressed, actions, read, kept⟩ :=
    readv_never_drops TtyBus.fresh 0x100 true 5000 (by decide) (by decide) Console.reset_rests
  refine ⟨addressed, actions, read, fun link run tick => ?_⟩
  obtain ⟨count, -, -, each⟩ := kept link run
  exact (each tick).1

end ZipVersa.DebugBus
