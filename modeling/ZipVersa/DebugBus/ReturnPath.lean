import ZipVersa.DebugBus.Replies

/-! The return path as a whole: `wbucompress` before the printing circuits, and
`readword` at the other end of the line. -/

set_option autoImplicit false

namespace ZipVersa.DebugBus

open Lib

structure ReturnPath where
  packit : Compress
  printer : Printer

namespace ReturnPath

/-- The inputs of one clock. -/
structure Clock where
  iStb : Bool
  iCodword : Word
  iBusBusy : Bool
  iTxBusy : Bool
  deriving DecidableEq, Repr

def step (path : ReturnPath) (clock : Clock) : ReturnPath where
  packit := path.packit.step path.printer.busy clock.iStb clock.iCodword
  printer := path.printer.step path.packit.stb path.packit.rCword clock.iBusBusy clock.iTxBusy

def takes (path : ReturnPath) (clock : Clock) : List Word :=
  path.packit.takes path.printer.busy clock.iStb clock.iCodword

def sends (path : ReturnPath) (clock : Clock) : List Byte := path.printer.sends clock.iTxBusy

/-- Nothing is under way. The table and all else is left open. -/
structure Rests (path : ReturnPath) : Prop where
  packit : path.packit.stb = false
  aword : path.packit.awordValid = false
  deword : path.printer.deword.stb = false
  linepacker : path.printer.linepacker.stb = false
  mkbytes : path.printer.mkbytes.stb = false

/-- The registers after configuration. -/
def reset : ReturnPath where
  packit := ⟨false, 0, 0, 0, false, fun _ => 0, 0, 0, false, 0, 0, false, true, false, false, false,
    false, 0, 0, 0, false⟩
  printer := ⟨⟨false, 0x40, 0, 0⟩, ⟨true, true, 0, false, false, 0, false⟩, ⟨false, 0⟩⟩

theorem reset_rests : reset.Rests := ⟨rfl, rfl, rfl, rfl, rfl⟩

/-! ### Runs -/

/-- `taken` has come in so far and `out` has gone out. -/
def Tracks (path : ReturnPath) (taken : List Word) (out : List Byte) : Prop :=
  ∃ sent done begun items, path.packit.Carries taken sent ∧
    path.printer.Prints sent out done begun items

variable {path : ReturnPath} {taken : List Word} {out : List Byte}

theorem Rests.tracks (rests : path.Rests) : path.Tracks [] [] :=
  ⟨[], [], [], [], .start rests.packit rests.aword, .idle rests.deword, .nil, fun _ => rfl,
    by simp [Printer.held, rests.mkbytes, rests.linepacker]⟩

theorem Tracks.step (tracks : path.Tracks taken out) (clock : Clock) :
    (path.step clock).Tracks (taken ++ path.takes clock) (out ++ path.sends clock) := by
  obtain ⟨sent, done, begun, items, carries, prints⟩ := tracks
  obtain ⟨done', begun', items', printed⟩ :=
    prints.step path.packit.stb path.packit.rCword clock.iBusBusy clock.iTxBusy
  exact ⟨_, done', begun', items', carries.step path.printer.busy clock.iStb clock.iCodword, printed⟩

theorem Tracks.run (tracks : path.Tracks taken out) (inputs : List Clock) :
    (clocked ReturnPath.step path inputs).Tracks
      (taken ++ observed ReturnPath.step takes path inputs)
      (out ++ observed ReturnPath.step sends path inputs) := by
  induction inputs generalizing path taken out with
  | nil => simpa [observed] using tracks
  | cons clock rest ih =>
      rw [observed, observed, ← List.append_assoc, ← List.append_assoc]
      exact ih (tracks.step clock)

/-! ### Draining -/

/-- No codeword is left under way; newlines may be. -/
structure Flushed (path : ReturnPath) : Prop where
  packit : path.packit.stb = false
  aword : path.packit.awordValid = false
  deword : path.printer.deword.stb = false
  linepacker : path.printer.linepacker.stb = true → item path.printer.linepacker.nlHexbits = none
  mkbytes : path.printer.mkbytes.stb = true → path.printer.mkbytes.char = newline

/-! The work left, in clocks that find the line free. -/

def packitWork (packit : Compress) : Nat :=
  (if packit.awordValid then 67 else 0) + (if packit.stb then 66 else 0)

def dewordWork (deword : Deword) : Nat := if deword.stb then 8 * (deword.rLen.toNat + 1) else 0

/-- A newline that may have to be added counts too. -/
def linesWork (lines : CompactLines) : Nat :=
  if lines.stb then (if lines.nlHexbits.getLsbD 6 then 3 else 7)
  else (if lines.rBusy then 1 else 0) + (if lines.lastOutNl then 0 else 4)

def mkbytesWork (mkbytes : SixChar) : Nat := if mkbytes.stb then 1 else 0

def work (path : ReturnPath) : Nat :=
  packitWork path.packit + dewordWork path.printer.deword + linesWork path.printer.linepacker +
    mkbytesWork path.printer.mkbytes

theorem work_le (path : ReturnPath) : path.work ≤ 205 := by
  have := path.printer.deword.rLen.isLt
  unfold work packitWork dewordWork linesWork mkbytesWork
  split_ifs <;> omega

/-- Handing over a codeword takes 66 off, moving one up takes 1 off. -/
theorem packitWork_step (packit : Compress) (iBusy : Bool) (iCodword : Word) :
    packitWork (packit.step iBusy false iCodword) + (if packit.stb && !iBusy then 66 else 0) +
        (if !packit.stb && packit.awordValid then 1 else 0) ≤ packitWork packit := by
  cases stb : packit.stb <;> cases aword : packit.awordValid <;> cases iBusy <;>
    simp [packitWork, Compress.step, Compress.tblBusy, stb, aword]

theorem dewordWork_step (deword : Deword) (iStb : Bool) (iWord : Word) (iTxBusy : Bool) :
    dewordWork (deword.step iStb iWord iTxBusy) + (if deword.stb && !iTxBusy then 8 else 0) ≤
      dewordWork deword + (if iStb && !deword.stb then 64 else 0) := by
  cases stb : deword.stb with
  | false =>
      have := (wLen iWord).isLt
      cases iStb <;> simp [dewordWork, Deword.step, stb]
      omega
  | true =>
      cases iTxBusy with
      | true => simp [dewordWork, Deword.step, stb]
      | false =>
          by_cases zero : deword.rLen = 0#3
          · simp [dewordWork, Deword.step, stb, zero]
          · have positive : 0 < deword.rLen.toNat := by
              rw [Nat.pos_iff_ne_zero]
              intro none
              exact zero (BitVec.eq_of_toNat_eq none)
            have fewer : (deword.rLen - 1#3).toNat = deword.rLen.toNat - 1 :=
              BitVec.toNat_sub_of_le (BitVec.le_def.mpr positive)
            have above : 0#3 < deword.rLen := BitVec.lt_def.mpr positive
            simp [dewordWork, Deword.step, stb, zero, above, fewer]
            omega

/-- An item taken up puts at most 7 on; while there is something to do, a clock
that finds the line free takes 1 off. -/
theorem linesWork_step (lines : CompactLines) (mkbytes : SixChar) (iStb : Bool)
    (iNlHexbits : BitVec 7) (iBusBusy iTxBusy : Bool) :
    linesWork (lines.step iStb iNlHexbits iBusBusy mkbytes.stb) +
        mkbytesWork (mkbytes.step lines.stb lines.nlHexbits iTxBusy) +
        (if (mkbytes.stb || lines.busy) && !iTxBusy then 1 else 0) ≤
      linesWork lines + mkbytesWork mkbytes + (if iStb && !lines.busy then 7 else 0) := by
  cases stb : lines.stb with
  | true =>
      cases full : mkbytes.stb <;> cases iTxBusy <;> cases nl : lines.nlHexbits[6] <;>
        simp [linesWork, mkbytesWork, CompactLines.step, CompactLines.busy, SixChar.step, stb, full, nl]
  | false =>
      cases waits : lines.rBusy with
      | true =>
          cases full : mkbytes.stb <;> cases iTxBusy <;> cases last : lines.lastOutNl <;>
            simp [linesWork, mkbytesWork, CompactLines.step, CompactLines.busy, SixChar.step, stb, full,
              waits, last]
      | false =>
          cases iStb with
          | true =>
              cases full : mkbytes.stb <;> cases iTxBusy <;> cases nl : iNlHexbits[6] <;>
                cases line : lines.fullLine <;>
                simp [linesWork, mkbytesWork, CompactLines.step, CompactLines.busy, SixChar.step,
                  stb, full, waits, nl, line]
          | false =>
              cases full : mkbytes.stb <;> cases iTxBusy <;> cases last : lines.lastOutNl <;>
                cases ended : lines.lastInNl <;> cases iBusBusy <;>
                simp [linesWork, mkbytesWork, CompactLines.step, CompactLines.busy, SixChar.step,
                  stb, full, waits, last, ended]

theorem work_balance {stb aword busy lines full iTxBusy : Bool} {p p' d d' l l' m m' : Nat}
    (packit : p' + (if stb && !busy then 66 else 0) + (if !stb && aword then 1 else 0) ≤ p)
    (deword : d' + (if busy && !lines then 8 else 0) ≤ d + (if stb && !busy then 64 else 0))
    (rest : l' + m' + (if (full || lines) && !iTxBusy then 1 else 0) ≤
      l + m + (if busy && !lines then 7 else 0))
    (some : stb = false → aword = false → busy = false → lines = false → full = true) :
    p' + d' + l' + m' + (if !iTxBusy then 1 else 0) ≤ p + d + l + m := by
  cases stb <;> cases aword <;> cases busy <;> cases lines <;> cases full <;> cases iTxBusy <;>
    simp at packit deword rest some ⊢ <;> omega

/-- Without new codewords the work falls at every clock that finds the line
free, until all is flushed. -/
theorem work_step (path : ReturnPath) {clock : Clock} (still : clock.iStb = false)
    (unfinished : ¬ path.Flushed) :
    (path.step clock).work + (if !clock.iTxBusy then 1 else 0) ≤ path.work := by
  have packit := packitWork_step path.packit path.printer.busy clock.iCodword
  have deword := dewordWork_step path.printer.deword path.packit.stb path.packit.rCword
    path.printer.linepacker.busy
  have lines := linesWork_step path.printer.linepacker path.printer.mkbytes
    path.printer.deword.stb path.printer.deword.nlHexbits clock.iBusBusy clock.iTxBusy
  have some : path.packit.stb = false → path.packit.awordValid = false →
      path.printer.deword.stb = false → path.printer.linepacker.busy = false →
      path.printer.mkbytes.stb = true := by
    intro stb aword idle free
    by_contra empty
    have held : path.printer.linepacker.stb = false := by
      simp [CompactLines.busy] at free
      exact free.2
    exact unfinished ⟨stb, aword, idle, by simp [held], fun full => absurd full empty⟩
  obtain ⟨iStb, iCodword, iBusBusy, iTxBusy⟩ := clock
  cases still
  simp only [work, step, Printer.step]
  exact work_balance packit deword lines some

theorem Flushed.step (flushed : path.Flushed) {clock : Clock} (still : clock.iStb = false) :
    (path.step clock).Flushed where
  packit := by simp [ReturnPath.step, Compress.step, flushed.aword, flushed.packit]
  aword := by simp [ReturnPath.step, Compress.step, Compress.tblBusy, flushed.packit, still]
  deword := by
    simp [ReturnPath.step, Printer.step, Deword.step, flushed.packit, flushed.deword]
  linepacker := by
    intro ends
    simp only [ReturnPath.step, Printer.step, CompactLines.step, flushed.deword, Bool.false_and,
      Bool.false_eq_true, if_false] at ends ⊢
    cases busy : path.printer.linepacker.busy with
    | false => simp [item]
    | true =>
        simp only [busy, Bool.not_true, Bool.false_eq_true, if_false] at ends ⊢
        split at ends
        · cases ends
        · exact flushed.linepacker ends
  mkbytes := by
    intro full
    simp only [ReturnPath.step, Printer.step, SixChar.step] at full ⊢
    split
    · next moves =>
        simp only [Bool.and_eq_true] at moves
        rw [sixChar_eq, flushed.linepacker moves.1]
        rfl
    · next stays =>
        refine flushed.mkbytes ?_
        split at full
        · cases full
        · simpa [stays] using full

theorem flushes {quiet : List Clock} (still : ∀ clock ∈ quiet, clock.iStb = false)
    (enough : 205 ≤ quiet.countP fun clock => !clock.iTxBusy) (path : ReturnPath) :
    (clocked ReturnPath.step path quiet).Flushed := by
  have kept : ∀ state, ∀ clock ∈ quiet, Flushed state → Flushed (state.step clock) :=
    fun state clock member flushed => flushed.step (still clock member)
  have falls : ∀ state, ∀ clock ∈ quiet, ¬ Flushed state →
      (state.step clock).work + (if !clock.iTxBusy then 1 else 0) ≤ state.work :=
    fun state clock member unfinished => state.work_step (still clock member) unfinished
  refine clocked_drains kept falls ?_ (Nat.le_trans path.work_le enough)
  intro state nothing
  by_contra unfinished
  have := @work_step state ⟨false, 0, false, false⟩ rfl unfinished
  simp at this
  omega

theorem takes_quiet {quiet : List Clock} (still : ∀ clock ∈ quiet, clock.iStb = false)
    (path : ReturnPath) : observed ReturnPath.step takes path quiet = [] := by
  induction quiet generalizing path with
  | nil => rfl
  | cons clock rest ih =>
      rw [observed, ih (fun other member => still other (.tail _ member))]
      simp [takes, Compress.takes, still clock (.head _)]

/-! ### The round trip -/

theorem itemChar_newline {value : Item} (same : itemChar value = newline) : value = none := by
  cases value with
  | none => rfl
  | some value =>
      have never : ∀ value : Six, charenc value ≠ newline := by decide
      exact absurd same (never value)

/-- Newlines that have not gone out yet are not missed. -/
theorem framed_out {words : List Word} {items : List Item} {held : List Byte}
    (framed : Framed words items) (chars : items.map itemChar = out ++ held)
    (newlines : ∀ char ∈ held, char = newline) :
    ∃ shown, Framed words shown ∧ shown.map itemChar = out := by
  induction held generalizing out with
  | nil => exact ⟨items, framed, by rw [chars, List.append_nil]⟩
  | cons char held ih =>
      have ends : char = newline := newlines char (.head _)
      obtain ⟨longer, framed, shown⟩ := @ih (out ++ [char])
        (by rw [chars, List.append_assoc]; rfl) (fun other member => newlines other (.tail _ member))
      obtain ⟨front, last, rfl, before, after⟩ := List.map_eq_append_iff.mp shown
      obtain ⟨value, rest, rfl, same, nothing⟩ := List.map_eq_cons_iff.mp after
      rw [List.map_eq_nil_iff.mp nothing, itemChar_newline (same.trans ends)] at framed
      exact ⟨front, framed.of_newline, before⟩

/-- A drained run has given out all it took in. -/
theorem Tracks.flushed (tracks : path.Tracks taken out) (flushed : path.Flushed) :
    ∃ codes known items, EmitsAll none (taken.map Compress.squeeze) codes known ∧
      Framed codes items ∧ items.map itemChar = out := by
  obtain ⟨sent, done, begun, items, ⟨handed, known, split, codes, _⟩, prints⟩ := tracks
  obtain ⟨rfl, rfl⟩ := prints.spells.of_idle flushed.deword
  have nothing : path.packit.pending = [] := by
    simp [Compress.pending, flushed.packit, flushed.aword]
  rw [nothing, List.append_nil] at split
  obtain ⟨whole, same, framed⟩ := prints.lined.framed
  rw [List.map_nil, List.append_nil] at same
  subst same
  have newlines : ∀ char ∈ path.printer.held, char = newline := by
    intro char member
    rcases List.mem_append.mp member with first | second
    · split at first
      · next full => rw [List.mem_singleton.mp first, flushed.mkbytes full]
      · cases first
    · split at second
      · next full =>
          rw [List.mem_singleton.mp second, flushed.linepacker full]
          rfl
      · cases second
  obtain ⟨shown, framed, chars⟩ := framed_out framed prints.chars newlines
  exact ⟨sent, known, shown, by rwa [split], framed, chars⟩

end ReturnPath

open ReturnPath

/-- What `wbuexec` and `wbuidleint` send, behind a first address, is what
`readword` returns, whatever the table and the host held before and however the
line stalls. -/
theorem readword_returns_data (host : Host) {start : ReturnPath} (rests : start.Rests)
    {inputs quiet : List ReturnPath.Clock} {outs : List Outgoing}
    (taken : observed step takes start inputs = outs.map Outgoing.word)
    (first : Outgoing.addressFirst outs = true)
    (still : ∀ clock ∈ quiet, clock.iStb = false)
    (enough : 205 ≤ quiet.countP fun clock => !clock.iTxBusy)
    (chars : host.port.flatten = observed step sends start (inputs ++ quiet)) :
    host.Returns (Outgoing.readings host.bus.lastaddr outs) := by
  have tracks := rests.tracks.run (inputs ++ quiet)
  rw [List.nil_append, List.nil_append, ← chars, observed_append, taken,
    takes_quiet still, List.append_nil, clocked_append] at tracks
  obtain ⟨codes, known, items, emits, framed, shown⟩ := tracks.flushed (flushes still enough _)
  rw [List.map_map] at emits
  refine (Host.awaits_readings framed emits nofun (fun _ => first) ?_ 0).returns
  exact shown.symm

/-- Three codewords in a row; the second `5` goes out as a reference. -/
theorem repeated_word_returned :
    let inputs := [Outgoing.address 0x40, .data true 5, .data true 5].map fun out =>
      (⟨true, out.word, true, false⟩ : ReturnPath.Clock)
    let quiet := List.replicate 205 (⟨false, 0, false, false⟩ : ReturnPath.Clock)
    observed step sends .reset (inputs ++ quiet) =
        [0x44, 0x31, 0x30, 0x0a, 0x76, 0x30, 0x30, 0x30, 0x30, 0x35, 0x0a, 0x37, 0x0a] ∧
      (⟨.fresh, fun _ => 0, [observed step sends .reset (inputs ++ quiet)]⟩ : Host).Returns
        [(5, 0x104), (5, 0x108)] := by
  intro inputs quiet
  refine ⟨by decide +kernel, ?_⟩
  have taken : observed step takes .reset inputs =
      [Outgoing.address 0x40, .data true 5, .data true 5].map Outgoing.word := by decide +kernel
  have still : ∀ clock ∈ quiet, clock.iStb = false := by
    intro clock member
    rw [(List.mem_replicate.mp member).2]
  have enough : 205 ≤ quiet.countP fun clock => !clock.iTxBusy := by decide +kernel
  exact readword_returns_data ⟨.fresh, fun _ => 0, [_]⟩ reset_rests taken (by decide) still enough
    (List.append_nil _)

end ZipVersa.DebugBus
