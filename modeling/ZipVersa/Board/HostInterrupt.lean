import ZipVersa.Board.Interrupts
import ZipVersa.DebugBus.IdleInt

/-! The way of an interrupt to the host: `w_bus_int` is `i_int` of `wbuidleint`,
whose codewords go out on the serial line. -/

set_option autoImplicit false

namespace ZipVersa.DebugBus.IdleInt

open Lib

variable {idlebits : Nat} {idleint : IdleInt idlebits} {clock : Clock}

/-- An interrupt codeword is on its way, or a request for one has not been sent. -/
def Telling (idleint : IdleInt idlebits) : Prop :=
  idleint.clears = true ∨ (idleint.intRequest = true ∧ idleint.intSent = false)

/-- A request that has been sent and was not taken back when its codeword was
accepted: `i_int` was still high. -/
def Blocked (idleint : IdleInt idlebits) : Prop :=
  idleint.intRequest = true ∧ idleint.intSent = true ∧ idleint.clears = false

instance (idleint : IdleInt idlebits) : Decidable idleint.Blocked :=
  inferInstanceAs (Decidable (_ ∧ _ ∧ _))

/-- An interrupt codeword goes out, or stays. -/
theorem clears_step (clearing : idleint.clears = true) (clock : Clock) :
    (∃ word ∈ idleint.gives clock, kind word = 4) ∨ (idleint.step clock).clears = true := by
  cases refused : clock.iTxBusy with
  | true => exact .inr (step_clears_kept clearing refused)
  | false =>
      obtain ⟨busy, four⟩ := Bool.and_eq_true_iff.mp clearing
      refine .inl ⟨idleint.oCodword, ?_, beq_iff_eq.mp four⟩
      simp [gives, busy, refused]

theorem clears_taken (clearing : idleint.clears = true) (ready : clock.iTxBusy = false) :
    ∃ word ∈ idleint.gives clock, kind word = 4 := by
  obtain ⟨busy, four⟩ := Bool.and_eq_true_iff.mp clearing
  refine ⟨idleint.oCodword, ?_, beq_iff_eq.mp four⟩
  simp [gives, busy, ready]

/-- With the register free and nothing from the executor the codeword is put in. -/
theorem Telling.put (telling : idleint.Telling) (empty : idleint.oStb = false)
    (silent : clock.iStb = false) : (idleint.step clock).clears = true := by
  rcases telling with clearing | ⟨asked, unsent⟩
  · rw [clears, empty] at clearing
    cases clearing
  · have loaded : idleint.loads clock = some (.inserted cwInterrupt) := by
      simp [loads, oBusy, empty, silent, asked, unsent]
    have four : kind cwInterrupt = 4 := by decide
    simp [clears, step, loaded, Loaded.word, four]

/-- What has still to be told is told, or has still to be told. -/
theorem Telling.step (telling : idleint.Telling) (clock : Clock) :
    (∃ word ∈ idleint.gives clock, kind word = 4) ∨ (idleint.step clock).Telling := by
  cases clearing : idleint.clears with
  | true => exact (clears_step clearing clock).imp_right .inl
  | false =>
      obtain ⟨asked, unsent⟩ : idleint.intRequest = true ∧ idleint.intSent = false :=
        telling.resolve_left (by rw [clearing]; exact Bool.false_ne_true)
      cases free : !idleint.oStb && !clock.iStb with
      | true =>
          obtain ⟨empty, silent⟩ : idleint.oStb = false ∧ clock.iStb = false := by simpa using free
          exact .inr (.inl (telling.put empty silent))
      | false =>
          refine .inr (.inr ⟨?_, ?_⟩)
          · rw [step_intRequest, clearing, asked]
            rfl
          · rw [step_intSent, asked, unsent, Bool.true_and, free, Bool.and_false]
            rfl

/-- An interrupt that comes in is to be told, unless an earlier request blocks it. -/
theorem raised_telling (requested : idleint.intSent = true → idleint.intRequest = true)
    (raised : clock.iInt = true) (blocked : ¬ idleint.Blocked) :
    (∃ word ∈ idleint.gives clock, kind word = 4) ∨ (idleint.step clock).Telling := by
  cases clearing : idleint.clears with
  | true => exact (clears_step clearing clock).imp_right .inl
  | false =>
      cases asked : idleint.intRequest with
      | false =>
          have unsent : idleint.intSent = false := by
            cases sent : idleint.intSent with
            | false => rfl
            | true => exact absurd (asked.symm.trans (requested sent)) Bool.false_ne_true
          refine .inr (.inr ⟨?_, ?_⟩)
          · rw [step_intRequest, clearing, raised, asked]
            rfl
          · rw [step_intSent, asked, unsent, Bool.false_and, Bool.false_and, Bool.and_false]
            rfl
      | true =>
          have unsent : idleint.intSent = false := by
            cases sent : idleint.intSent with
            | false => rfl
            | true => exact absurd ⟨asked, sent, clearing⟩ blocked
          exact Telling.step (.inr ⟨asked, unsent⟩) clock

/-- A clock at which a blocked request stays blocked: `i_int` is high, or nothing
is under way or comes in. -/
def Leaves (idleint : IdleInt idlebits) (clock : Clock) : Prop :=
  (clock.iInt = true ∧ (clock.iStb = true → kind clock.iCodword ≠ 4)) ∨
    (idleint.oStb = false ∧ clock.iStb = false)

instance (idleint : IdleInt idlebits) (clock : Clock) : Decidable (idleint.Leaves clock) :=
  inferInstanceAs (Decidable (_ ∧ (_ → _) ∨ _ ∧ _))

theorem Blocked.silent (blocked : idleint.Blocked) (clock : Clock) :
    ∀ word ∈ idleint.gives clock, kind word ≠ 4 := by
  intro word given four
  obtain ⟨-, -, low⟩ := blocked
  cases busy : idleint.oStb with
  | false => simp [gives, busy] at given
  | true =>
      have same : word = idleint.oCodword := by
        cases refused : clock.iTxBusy <;> simp [gives, busy, refused] at given
        exact given
      simp [clears, busy, ← same, four] at low

theorem Blocked.step (blocked : idleint.Blocked) (leaves : idleint.Leaves clock) :
    (idleint.step clock).Blocked := by
  obtain ⟨asked, sent, low⟩ := blocked
  refine ⟨?_, ?_, ?_⟩
  · rw [step_intRequest, low, asked]
    rfl
  · rw [step_intSent, asked, sent]
    rcases leaves with ⟨raised, -⟩ | ⟨empty, silent⟩
    · rw [raised, Bool.and_self, Bool.or_true]
    · rw [empty, silent]
      rfl
  · have busbusy : kind cwBusbusy ≠ 4#6 := by decide
    have idle : kind cwIdle ≠ 4#6 := by decide
    cases busy : idleint.oStb with
    | true =>
        have other : kind idleint.oCodword ≠ 4#6 := by simpa [clears, busy] using low
        simp [clears, IdleInt.step, loads_busy busy, other]
    | false =>
        cases offered : clock.iStb with
        | true =>
            rcases leaves with ⟨-, other⟩ | ⟨-, silent⟩
            · have other' : kind clock.iCodword ≠ 4#6 := other offered
              simp [clears, IdleInt.step, loads, oBusy, busy, offered, Loaded.word, other']
            · rw [offered] at silent
              cases silent
        | false =>
            cases due : idleint.idleExpired with
            | false => simp [clears, IdleInt.step, loads, oBusy, busy, offered, asked, sent, due]
            | true =>
                cases cyc : clock.iCyc <;>
                  simp [clears, IdleInt.step, loads, oBusy, busy, offered, asked, sent, due, cyc,
                    Loaded.word, busbusy, idle]

end ZipVersa.DebugBus.IdleInt

namespace ZipVersa.Board

open Lib DebugBus

/-- The wires at a clock: those of the two peripherals, and those of `wbuidleint`
but for `i_int`. -/
structure HostClock where
  ints : InterruptClock
  iStb : Bool
  iCodword : Word
  iCyc : Bool
  iBusy : Bool
  iTxBusy : Bool

structure HostInterrupts (idlebits : Nat) where
  ints : Interrupts
  idleint : IdleInt idlebits

namespace HostInterrupts

variable {idlebits : Nat}

def idleClock (host : HostInterrupts idlebits) (clock : HostClock) : IdleInt.Clock where
  iStb := clock.iStb
  iCodword := clock.iCodword
  iCyc := clock.iCyc
  iBusy := clock.iBusy
  iInt := host.ints.pic.oInterrupt
  iTxBusy := clock.iTxBusy

def step (host : HostInterrupts idlebits) (clock : HostClock) : HostInterrupts idlebits where
  ints := host.ints.step clock.ints
  idleint := host.idleint.step (host.idleClock clock)

/-- The codeword that goes on to the host at a clock. -/
def gives (host : HostInterrupts idlebits) (clock : HostClock) : List Word :=
  host.idleint.gives (host.idleClock clock)

def powerUp (interval : BitVec 31) (codword : Word) : HostInterrupts idlebits where
  ints := Interrupts.powerUp interval
  idleint := IdleInt.initial codword

/-- The executor leaves a gap after some clocks, and the next stage takes a
codeword later. -/
def Opens (host : HostInterrupts idlebits) (clocks : List HostClock) : Prop :=
  ∃ waiting free sending taken after, clocks = waiting ++ free :: (sending ++ taken :: after) ∧
    (clocked step host waiting).idleint.oStb = false ∧ free.iStb = false ∧ taken.iTxBusy = false

/-- The host is told of an interrupt. -/
def Told (host : HostInterrupts idlebits) (clocks : List HostClock) : Prop :=
  ∃ word ∈ observed step gives host clocks, IdleInt.kind word = 4

theorem ints_run (host : HostInterrupts idlebits) (clocks : List HostClock) :
    (clocked step host clocks).ints = clocked Interrupts.step host.ints (clocks.map HostClock.ints) := by
  induction clocks generalizing host with
  | nil => rfl
  | cons clock rest ih => exact ih (host.step clock)

theorem requested_run (interval : BitVec 31) (codword : Word) (clocks : List HostClock) :
    (clocked step (powerUp interval codword : HostInterrupts idlebits) clocks).idleint.intSent = true →
      (clocked step (powerUp interval codword : HostInterrupts idlebits) clocks).idleint.intRequest =
        true := by
  refine @clocked_invariant _ _ step
    (fun host => host.idleint.intSent = true → host.idleint.intRequest = true) clocks ?_ _ ?_
  · intro host clock _ _ sent
    exact IdleInt.step_requested sent
  · intro sent
    cases sent

/-- What has still to be told is told once the line is open. -/
theorem told_of_opens {host : HostInterrupts idlebits} {clocks : List HostClock}
    (telling : host.idleint.Telling) (opens : host.Opens clocks) : host.Told clocks := by
  obtain ⟨waiting, free, sending, taken, after, rfl, empty, silent, ready⟩ := opens
  unfold Told
  have stays := @observed_until _ _ _ step gives (fun host => host.idleint.Telling)
    (fun word => IdleInt.kind word = 4)
    (fun host clock telling => IdleInt.Telling.step telling (host.idleClock clock)) host telling waiting
  rcases stays with ⟨word, given, four⟩ | still
  · refine ⟨word, ?_, four⟩
    rw [observed_append]
    exact List.mem_append_left _ given
  · have put : (step (clocked step host waiting) free).idleint.clears = true := still.put empty silent
    have kept := @observed_until _ _ _ step gives (fun host => host.idleint.clears = true)
      (fun word => IdleInt.kind word = 4)
      (fun host clock clearing => IdleInt.clears_step clearing (host.idleClock clock)) _ put sending
    rcases kept with ⟨word, given, four⟩ | last
    · refine ⟨word, ?_, four⟩
      rw [observed_append, observed, observed_append]
      simp [given]
    · obtain ⟨word, given, four⟩ := @IdleInt.clears_taken _ _ (idleClock (clocked step
        (step (clocked step host waiting) free) sending) taken) last ready
      refine ⟨word, ?_, four⟩
      rw [observed_append, observed, observed_append, observed]
      simp [gives, given]

/-- An enabled line that is pending is told to the host, as soon as the executor
leaves a gap and the line is free, unless an earlier interrupt stands whose
codeword was accepted while it was high. -/
theorem interrupt_told (interval : BitVec 31) (codword : Word) {past : List HostClock}
    {last now : HostClock} {rest : List HostClock} {line : Nat} (below : line < 15)
    (all : Interrupts.Enabled 15 (past.map HostClock.ints))
    (enabled : Interrupts.Enabled line (past.map HostClock.ints))
    (pending : Interrupts.Pending line (past.map HostClock.ints)) :
    let host : HostInterrupts idlebits := clocked step (powerUp interval codword) (past ++ [last])
    ¬ host.idleint.Blocked → (host.step now).Opens rest → host.Told (now :: rest) := by
  intro host blocked opens
  have high : host.ints.pic.oInterrupt = true := by
    simp only [host]
    rw [ints_run, List.map_append, List.map_cons, List.map_nil]
    exact (Interrupts.raised_iff last.ints).mpr ⟨all, line, below, enabled, pending⟩
  have requested := @requested_run idlebits interval codword (past ++ [last])
  rcases @IdleInt.raised_telling _ _ (host.idleClock now) requested high blocked with
    ⟨word, given, four⟩ | telling
  · exact ⟨word, List.mem_append_left _ given, four⟩
  · have telling' : (host.step now).idleint.Telling := telling
    obtain ⟨word, given, four⟩ := told_of_opens telling' opens
    exact ⟨word, List.mem_append_right _ given, four⟩

/-- The wires with nothing going on. -/
def calm : InterruptClock where
  systimerStb := false
  buspicStb := false
  wbWe := false
  wbData := 0
  flashdbgInt := false
  net1rxInt := false
  net1txInt := false
  enetscopeInt := false
  uartrxfInt := false
  uarttxfInt := false
  spioInt := false
  wbfftInt := false

def onBus (ints : InterruptClock) : HostClock where
  ints := ints
  iStb := false
  iCodword := 0
  iCyc := false
  iBusy := false
  iTxBusy := false

/-- One clock to go for the timer; then lines 0 and 1 are enabled, and all are. -/
def timing : List InterruptClock :=
  [{ calm with systimerStb := true, wbWe := true, wbData := 1 },
    { calm with buspicStb := true, wbWe := true, wbData := 0x80038000 }, calm]

theorem timer_told :
    Told (clocked step (powerUp 0 0 : HostInterrupts 31) (timing.map onBus ++ [onBus calm]))
      [onBus calm, onBus calm, onBus calm] := by
  have same : (timing.map onBus).map HostClock.ints = timing := rfl
  have kept (line : Nat) : ∀ later ∈ [calm], ¬ (later.marks (16 + line) ∧ ¬ later.enables) := by
    intro later member
    rw [List.mem_singleton.mp member]
    rintro ⟨⟨stb, -⟩, -⟩
    cases stb
  have all : Interrupts.Enabled 15 timing :=
    ⟨[_], _, [calm], rfl, ⟨⟨rfl, rfl, rfl⟩, rfl⟩, kept 15⟩
  have enabled : Interrupts.Enabled 1 timing :=
    ⟨[_], _, [calm], rfl, ⟨⟨rfl, rfl, rfl⟩, rfl⟩, kept 1⟩
  have expires : Expires [InterruptClock.timerClock
      { calm with systimerStb := true, wbWe := true, wbData := 1 },
      InterruptClock.timerClock { calm with buspicStb := true, wbWe := true, wbData := 0x80038000 }] := by
    refine ⟨[], _, [], _, rfl, rfl, rfl, ?_, rfl, by decide, .inl (by decide)⟩
    intro clock member
    rw [List.mem_singleton.mp member]
    exact ⟨rfl, rfl⟩
  have pending : Interrupts.Pending 1 timing := ⟨[_, _], calm, [], rfl, expires, List.forall_mem_nil _⟩
  exact interrupt_told 0 0 (by decide) (same ▸ all) (same ▸ enabled) (same ▸ pending) (by decide)
    ⟨[], onBus calm, [], onBus calm, [], rfl, by decide, rfl, rfl⟩

/-- An interrupt that is still high when its codeword is accepted blocks all later
ones on a quiet line: whatever the peripherals and the software do, the host is
told of none. -/
theorem blocked_unheard {host : HostInterrupts idlebits} {clocks : List HostClock}
    (blocked : host.idleint.Blocked)
    (leaves : Along step (fun host clock => host.idleint.Leaves (host.idleClock clock)) host clocks) :
    ¬ host.Told clocks ∧ (clocked step host clocks).idleint.Blocked := by
  induction clocks generalizing host with
  | nil =>
      refine ⟨?_, blocked⟩
      rintro ⟨word, given, -⟩
      cases given
  | cons clock rest ih =>
      obtain ⟨unheard, still⟩ := ih (blocked.step leaves.1) leaves.2
      refine ⟨?_, still⟩
      rintro ⟨word, given, four⟩
      rcases List.mem_append.mp given with now | later
      · exact blocked.silent (host.idleClock clock) word now four
      · exact unheard ⟨word, later, four⟩

/-- The software takes the line back, and the FFT raises its own. -/
def later : List InterruptClock :=
  [{ calm with buspicStb := true, wbWe := true, wbData := 2 }, calm, calm,
    { calm with wbfftInt := true }, calm, calm, calm]

theorem second_unheard :
    ¬ Told (clocked step (powerUp 0 0 : HostInterrupts 31)
        (timing.map onBus ++ List.replicate 4 (onBus calm))) (later.map onBus) ∧
      (clocked step (clocked step (powerUp 0 0 : HostInterrupts 31)
        (timing.map onBus ++ List.replicate 4 (onBus calm))) (later.map onBus)).idleint.Blocked :=
  blocked_unheard (by decide) (by decide)

end HostInterrupts

end ZipVersa.Board
