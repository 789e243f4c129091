import ZipVersa.DebugBus.Compress

/-! From codewords to characters: `wbudeword`, `wbucompactlines` and
`wbusixchar`. An item between them is six bits or a newline. -/

set_option autoImplicit false

namespace ZipVersa.DebugBus

open Lib

/-- Six bits, or a newline. -/
abbrev Item := Option Six

/-- What the seven bits between the circuits stand for. -/
def item (nlHexbits : BitVec 7) : Item :=
  if nlHexbits.getLsbD 6 then none else some (nlHexbits.extractLsb' 0 6)

/-! ### `wbudeword` -/

structure Deword where
  stb : Bool
  nlHexbits : BitVec 7
  rLen : BitVec 3
  rWord : BitVec 30
  deriving DecidableEq, Repr

/-- How many characters a codeword takes. -/
def wLen (word : Word) : BitVec 3 :=
  if word.extractLsb' 33 3 = 0 then 1
  else if word.extractLsb' 32 4 = 2 then 6
  else if word.extractLsb' 32 4 = 3 then 2 + (word.extractLsb' 30 2).setWidth 3
  else if word.extractLsb' 34 2 = 1 then 2
  else if word.extractLsb' 34 2 = 2 then 1
  else 6

namespace Deword

def step (deword : Deword) (iStb : Bool) (iWord : Word) (iTxBusy : Bool) : Deword where
  rWord :=
    if iStb && !deword.stb then iWord.extractLsb' 0 30
    else if !iTxBusy && decide (1 < deword.rLen) then
      deword.rWord.extractLsb' 0 24 ++ deword.rWord.extractLsb' 0 6
    else deword.rWord
  nlHexbits :=
    if iStb && !deword.stb then (0 : BitVec 1) ++ iWord.extractLsb' 30 6
    else if !iTxBusy then
      if 1 < deword.rLen then (0 : BitVec 1) ++ deword.rWord.extractLsb' 24 6
      else if !deword.nlHexbits.getLsbD 6 then 0x40
      else deword.nlHexbits
    else deword.nlHexbits
  stb :=
    if iStb && !deword.stb then true
    else if deword.rLen == 0 && !iTxBusy then false
    else deword.stb
  rLen :=
    if iStb && !deword.stb then wLen iWord
    else if !iTxBusy && decide (0 < deword.rLen) then deword.rLen - 1
    else deword.rLen

end Deword

/-! ### `wbucompactlines` -/

structure CompactLines where
  lastOutNl : Bool
  lastInNl : Bool
  linelen : BitVec 7
  fullLine : Bool
  stb : Bool
  nlHexbits : BitVec 7
  rBusy : Bool
  deriving DecidableEq, Repr

namespace CompactLines

variable (lines : CompactLines)

def busy : Bool := lines.rBusy || lines.stb

def step (iStb : Bool) (iNlHexbits : BitVec 7) (iBusBusy iTxBusy : Bool) : CompactLines where
  lastOutNl := if !iTxBusy && lines.stb then lines.nlHexbits.getLsbD 6 else lines.lastOutNl
  lastInNl := if iStb && !lines.busy then iNlHexbits.getLsbD 6 else lines.lastInNl
  linelen :=
    if !iTxBusy && lines.stb then
      if lines.nlHexbits.getLsbD 6 then 0 else lines.linelen + 1
    else lines.linelen
  fullLine := decide (72 < lines.linelen)
  stb :=
    if iStb && !lines.busy then lines.fullLine || !iNlHexbits.getLsbD 6
    else if !lines.busy then !iTxBusy && !iBusBusy && !lines.lastOutNl && lines.lastInNl
    else if !iTxBusy then false
    else lines.stb
  nlHexbits :=
    if iStb && !lines.busy then iNlHexbits
    else if !lines.busy then 0x40
    else lines.nlHexbits
  rBusy := lines.stb

end CompactLines

/-! ### `wbusixchar` -/

structure SixChar where
  stb : Bool
  char : Byte
  deriving DecidableEq, Repr

/-- The character for an item. -/
def sixChar (iBits : BitVec 7) : Byte :=
  if iBits.getLsbD 6 then 0x0a
  else if iBits.extractLsb' 0 6 ≤ 0x09 then 0x30 + (iBits.extractLsb' 0 4).setWidth 8
  else if iBits.extractLsb' 0 6 ≤ 35 then 0x41 + (iBits.extractLsb' 0 6).setWidth 8 - 10
  else if iBits.extractLsb' 0 6 ≤ 61 then 0x61 + (iBits.extractLsb' 0 6).setWidth 8 - 36
  else if iBits.extractLsb' 0 6 = 62 then 0x40
  else 0x25

def SixChar.step (mkbytes : SixChar) (iStb : Bool) (iBits : BitVec 7) (iBusy : Bool) : SixChar where
  char := if iStb && !mkbytes.stb then sixChar iBits else mkbytes.char
  stb :=
    if mkbytes.stb && !iBusy then false
    else if iStb && !mkbytes.stb then true
    else mkbytes.stb

/-! ### The three in a row -/

structure Printer where
  deword : Deword
  linepacker : CompactLines
  mkbytes : SixChar
  deriving DecidableEq, Repr

namespace Printer

variable (printer : Printer)

def busy : Bool := printer.deword.stb

def step (iStb : Bool) (iWord : Word) (iBusBusy iTxBusy : Bool) : Printer where
  deword := printer.deword.step iStb iWord printer.linepacker.busy
  linepacker :=
    printer.linepacker.step printer.deword.stb printer.deword.nlHexbits iBusBusy printer.mkbytes.stb
  mkbytes := printer.mkbytes.step printer.linepacker.stb printer.linepacker.nlHexbits iTxBusy

/-- The codeword taken in at a clock. -/
def takes (iStb : Bool) (iWord : Word) : List Word := if iStb && !printer.busy then [iWord] else []

/-- The character given out at a clock. -/
def sends (iTxBusy : Bool) : List Byte :=
  if printer.mkbytes.stb && !iTxBusy then [printer.mkbytes.char] else []

end Printer

/-! ### Codewords and newlines -/

def pieces (rWord : BitVec 30) : List Six :=
  [rWord.extractLsb' 24 6, rWord.extractLsb' 18 6, rWord.extractLsb' 12 6, rWord.extractLsb' 6 6,
    rWord.extractLsb' 0 6]

/-- The six-bit values a codeword is spelled in. -/
def spell (word : Word) : List Six :=
  word.extractLsb' 30 6 :: (pieces (word.extractLsb' 0 30)).take ((wLen word).toNat - 1)

def itemChar : Item → Byte
  | none => newline
  | some value => charenc value

@[simp] theorem sixChar_eq (bits : BitVec 7) : sixChar bits = itemChar (item bits) := by
  revert bits
  decide +kernel

/-- Whole codewords with newlines between them, and the beginning of one more. -/
inductive Lined : List Word → List Six → List Item → Prop where
  | nil : Lined [] [] []
  | newline {words : List Word} {items : List Item} :
      Lined words [] items → Lined words [] (items ++ [none])
  | six {words : List Word} {begun : List Six} {items : List Item} (value : Six) :
      Lined words begun items → Lined words (begun ++ [value]) (items ++ [some value])
  | word {words : List Word} {items : List Item} (word : Word) :
      Lined words (spell word) items → Lined (words ++ [word]) [] items

/-! ### Spelling a codeword -/

theorem wLen_range (word : Word) : 0 < (wLen word).toNat ∧ (wLen word).toNat ≤ 6 := by
  have longest (tag : BitVec 2) : 0 < (2 + tag.setWidth 3).toNat ∧ (2 + tag.setWidth 3).toNat ≤ 6 := by
    revert tag
    decide
  unfold wLen
  split_ifs <;> first | exact longest _ | decide

/-- Six bits on their way, no newline. -/
theorem hexbits (value : Six) :
    ((0 : BitVec 1) ++ value : BitVec 7)[6] = false ∧
      ((0 : BitVec 1) ++ value : BitVec 7).extractLsb' 0 6 = value := by
  revert value
  decide

theorem piece_shift (rWord : BitVec 30) {start : Nat} (inside : start ≤ 18) :
    (rWord.extractLsb' 0 24 ++ rWord.extractLsb' 0 6 : BitVec 30).extractLsb' (start + 6) 6 =
      rWord.extractLsb' start 6 := by
  ext i small
  rw [BitVec.getElem_extractLsb', BitVec.getElem_extractLsb']
  erw [BitVec.getLsbD_append]
  rw [if_neg (by omega), BitVec.getLsbD_extractLsb', decide_eq_true (by omega), Bool.true_and]
  congr 1
  omega

/-- A shift brings up the next six bits; the last piece is then there twice. -/
theorem pieces_shift (rWord : BitVec 30) {count : Nat} (few : count ≤ 4) :
    (pieces (rWord.extractLsb' 0 24 ++ rWord.extractLsb' 0 6)).take count =
      (pieces rWord).tail.take count := by
  have first : ∀ (word other : BitVec 30), (∀ start ≤ 18,
      word.extractLsb' (start + 6) 6 = other.extractLsb' start 6) →
      (pieces word).take 4 = (pieces other).tail := by
    intro word other shifted
    simp only [pieces, List.take_succ_cons, List.take_zero, List.tail_cons, List.cons.injEq,
      and_true]
    exact ⟨shifted 18 (by decide), shifted 12 (by decide), shifted 6 (by decide),
      shifted 0 (by decide)⟩
  have four := first (rWord.extractLsb' 0 24 ++ rWord.extractLsb' 0 6) rWord
    fun start inside => piece_shift rWord inside
  have := congrArg (List.take count) four
  rwa [List.take_take, Nat.min_eq_left few] at this

namespace Deword

/-- The six bits a codeword under way still has to show. -/
def rest (deword : Deword) : List Six :=
  deword.nlHexbits.extractLsb' 0 6 :: (pieces deword.rWord).take (deword.rLen.toNat - 1)

/-- `sent` has come in, of which `done` is out but for its newline, and so is
the beginning `begun` of the last codeword. -/
inductive Spells (deword : Deword) : List Word → List Word → List Six → Prop where
  | idle {done : List Word} : deword.stb = false → Spells deword done done []
  | newline {done : List Word} :
      deword.stb = true → deword.rLen = 0 → deword.nlHexbits = 0x40 → Spells deword done done []
  | word {done : List Word} {begun : List Six} {word : Word} :
      deword.stb = true → deword.nlHexbits[6] = false → 0 < deword.rLen.toNat →
      deword.rLen.toNat ≤ 6 → spell word = begun ++ deword.rest →
      Spells deword (done ++ [word]) done begun

variable {deword : Deword} {sent done : List Word} {begun : List Six}

/-- Nothing comes in and nothing is taken. -/
theorem step_stalled {iStb : Bool} (closed : iStb = true → deword.stb = true) (iWord : Word) :
    deword.step iStb iWord true = deword := by
  have refused : (iStb && !deword.stb) = false := by
    cases iStb with
    | false => rfl
    | true => rw [closed rfl]; rfl
  simp [step, refused]

theorem Spells.accept (idle : deword.stb = false) (iWord : Word) (iTxBusy : Bool) :
    (deword.step true iWord iTxBusy).Spells (done ++ [iWord]) done [] := by
  have range := wLen_range iWord
  have accepted : deword.step true iWord iTxBusy =
      ⟨true, (0 : BitVec 1) ++ iWord.extractLsb' 30 6, wLen iWord, iWord.extractLsb' 0 30⟩ := by
    simp [step, idle]
  rw [accepted]
  refine .word rfl (hexbits _).1 range.1 range.2 ?_
  rw [rest, (hexbits _).2]
  rfl

theorem step_next (busy : deword.stb = true) (more : 1 < deword.rLen.toNat) (iStb : Bool)
    (iWord : Word) :
    deword.step iStb iWord false =
      ⟨true, (0 : BitVec 1) ++ deword.rWord.extractLsb' 24 6, deword.rLen - 1,
        deword.rWord.extractLsb' 0 24 ++ deword.rWord.extractLsb' 0 6⟩ := by
  have above : ¬ deword.rLen ≤ 1#3 := by
    intro below
    have := BitVec.le_def.mp below
    simp only [BitVec.toNat_ofNat] at this
    omega
  have running : ¬ deword.rLen = 0#3 := by
    intro zero
    rw [zero] at more
    exact absurd more (by decide)
  simp [step, busy, above, running]

theorem rest_next {next : Deword} (shifted : next = ⟨true,
      (0 : BitVec 1) ++ deword.rWord.extractLsb' 24 6, deword.rLen - 1,
      deword.rWord.extractLsb' 0 24 ++ deword.rWord.extractLsb' 0 6⟩)
    (more : 1 < deword.rLen.toNat) (few : deword.rLen.toNat ≤ 6) :
    deword.rest = deword.nlHexbits.extractLsb' 0 6 :: next.rest := by
  have count : (deword.rLen - 1).toNat = deword.rLen.toNat - 1 :=
    BitVec.toNat_sub_of_le (BitVec.le_def.mpr (Nat.le_of_lt more))
  obtain ⟨size, length⟩ : ∃ size, deword.rLen.toNat = size + 2 := ⟨_, (Nat.sub_add_cancel more).symm⟩
  rw [shifted, rest, rest, (hexbits _).2, count, pieces_shift _ (by omega), length]
  rfl

theorem Spells.of_idle (spells : deword.Spells sent done begun) (idle : deword.stb = false) :
    sent = done ∧ begun = [] := by
  cases spells with
  | idle _ => exact ⟨rfl, rfl⟩
  | newline busy _ _ => rw [idle] at busy; cases busy
  | word busy _ _ _ _ => rw [idle] at busy; cases busy

/-- What is taken from a busy `wbudeword`: six more bits of a codeword, or the
newline after it. -/
theorem Spells.transfer {items : List Item} (spells : deword.Spells sent done begun)
    (lined : Lined done begun items) (busy : deword.stb = true) (iStb : Bool) (iWord : Word) :
    (item deword.nlHexbits = none ∧ begun = [] ∧
        (deword.step iStb iWord false).Spells sent done []) ∨
      ∃ value, item deword.nlHexbits = some value ∧ ∃ done' begun',
        (deword.step iStb iWord false).Spells sent done' begun' ∧
          Lined done' begun' (items ++ [some value]) := by
  cases spells with
  | idle idle => rw [idle] at busy; cases busy
  | newline _ none bits =>
      refine .inl ⟨by rw [bits]; rfl, rfl, .idle ?_⟩
      simp [step, busy, none]
  | @word done begun word _ six some few spelled =>
      have value : item deword.nlHexbits = .some (deword.nlHexbits.extractLsb' 0 6) := by
        simp [item, six]
      have longer := lined.six (deword.nlHexbits.extractLsb' 0 6)
      refine .inr ⟨_, value, ?_⟩
      by_cases last : deword.rLen = 1
      · refine ⟨done ++ [word], [], .newline ?_ ?_ ?_, ?_⟩
        · simp [step, busy, last]
        · simp [step, busy, last]
        · simp [step, busy, last, six]
        · refine .word word ?_
          rw [spelled, rest, last]
          exact longer
      · have two : 1 < deword.rLen.toNat := by
          have : deword.rLen.toNat ≠ 1 := fun one => last (BitVec.eq_of_toNat_eq one)
          omega
        have next := step_next busy two iStb iWord
        have count : (deword.rLen - 1).toNat = deword.rLen.toNat - 1 :=
          BitVec.toNat_sub_of_le (BitVec.le_def.mpr (Nat.le_of_lt two))
        refine ⟨done, _, ?_, longer⟩
        rw [next]
        refine .word rfl (hexbits _).1 (by dsimp only; omega) (by dsimp only; omega) ?_
        rw [spelled, rest_next rfl two few, List.append_assoc]
        rfl

end Deword

namespace Printer

variable {printer : Printer} {sent : List Word} {out : List Byte}

/-- The characters between `wbudeword` and the line. -/
def held (printer : Printer) : List Byte :=
  (if printer.mkbytes.stb then [printer.mkbytes.char] else []) ++
    (if printer.linepacker.stb then [itemChar (item printer.linepacker.nlHexbits)] else [])

/-- The item `wbucompactlines` takes up at a clock, from its input or a newline
of its own. -/
def emits (printer : Printer) (next : CompactLines) : List Item :=
  if !printer.linepacker.busy && next.stb then [item next.nlHexbits] else []

/-- `sent` has come in so far and `out` has gone out. -/
structure Prints (printer : Printer) (sent : List Word) (out : List Byte) (done : List Word)
    (begun : List Six) (items : List Item) : Prop where
  spells : printer.deword.Spells sent done begun
  lined : Lined done begun items
  between : printer.linepacker.lastInNl = true → begun = []
  chars : items.map itemChar = out ++ printer.held

theorem held_step (printer : Printer) (iStb : Bool) (iWord : Word) (iBusBusy iTxBusy : Bool) :
    printer.held ++
        (printer.emits (printer.step iStb iWord iBusBusy iTxBusy).linepacker).map itemChar =
      printer.sends iTxBusy ++ (printer.step iStb iWord iBusBusy iTxBusy).held := by
  cases holds : printer.linepacker.stb with
  | true =>
      cases full : printer.mkbytes.stb <;> cases iTxBusy <;>
        simp [held, emits, sends, step, SixChar.step, CompactLines.step, CompactLines.busy, holds,
          full]
  | false =>
      have mkbytes : (printer.step iStb iWord iBusBusy iTxBusy).mkbytes =
          ⟨printer.mkbytes.stb && iTxBusy, printer.mkbytes.char⟩ := by
        cases full : printer.mkbytes.stb <;> cases iTxBusy <;>
          simp [step, SixChar.step, holds, full]
      cases waits : printer.linepacker.rBusy with
      | true =>
          have quiet : (printer.step iStb iWord iBusBusy iTxBusy).linepacker.stb = false := by
            simp [step, CompactLines.step, CompactLines.busy, waits, holds]
          cases full : printer.mkbytes.stb <;> cases iTxBusy <;>
            simp [held, emits, sends, mkbytes, holds, full, quiet]
      | false =>
          generalize next : (printer.step iStb iWord iBusBusy iTxBusy).linepacker = lines
          cases full : printer.mkbytes.stb <;> cases iTxBusy <;> cases new : lines.stb <;>
            simp [held, emits, sends, mkbytes, holds, full, next, new, CompactLines.busy, waits]

variable {done : List Word} {begun : List Six} {items : List Item}

/-- At a clock at which `wbudeword` gives nothing away, `wbucompactlines` takes
up nothing or a newline between two codewords. -/
theorem emits_apart (lined : Lined done begun items)
    (between : printer.linepacker.lastInNl = true → begun = [])
    (apart : (printer.deword.stb && !printer.linepacker.busy) = false) (iStb : Bool) (iWord : Word)
    (iBusBusy iTxBusy : Bool) :
    Lined done begun
      (items ++ printer.emits (printer.step iStb iWord iBusBusy iTxBusy).linepacker) := by
  cases busy : printer.linepacker.busy with
  | true => simpa [emits, busy] using lined
  | false =>
      have idle : printer.deword.stb = false := by simpa [busy] using apart
      by_cases ends : (printer.step iStb iWord iBusBusy iTxBusy).linepacker.stb = true
      · have bits : item (printer.step iStb iWord iBusBusy iTxBusy).linepacker.nlHexbits = none := by
          simp [step, CompactLines.step, idle, busy, item]
        have lastInNl : printer.linepacker.lastInNl = true := by
          simp only [step, CompactLines.step, idle, busy] at ends
          simp at ends
          exact ends.2
        rw [emits, busy, ends, bits]
        rw [between lastInNl] at lined ⊢
        exact lined.newline
      · simpa [emits, ends] using lined

/-- One clock at which `wbudeword` gives nothing away. -/
theorem Prints.apart (prints : printer.Prints sent out done begun items)
    (apart : (printer.deword.stb && !printer.linepacker.busy) = false) (iStb : Bool) (iWord : Word)
    (iBusBusy iTxBusy : Bool) :
    (printer.step iStb iWord iBusBusy iTxBusy).Prints (sent ++ printer.takes iStb iWord)
      (out ++ printer.sends iTxBusy) done begun
      (items ++ printer.emits (printer.step iStb iWord iBusBusy iTxBusy).linepacker) where
  lined := emits_apart prints.lined prints.between apart iStb iWord iBusBusy iTxBusy
  between := by
    simp only [step, CompactLines.step, apart, Bool.false_eq_true, if_false]
    exact prints.between
  chars := by
    rw [List.map_append, prints.chars, List.append_assoc, List.append_assoc,
      held_step printer iStb iWord iBusBusy iTxBusy]
  spells := by
    show (printer.deword.step iStb iWord printer.linepacker.busy).Spells _ _ _
    cases busy : printer.deword.stb with
    | true =>
        have stalled : printer.linepacker.busy = true := by simpa [busy] using apart
        rw [stalled, Deword.step_stalled (fun _ => busy)]
        simpa [takes, Printer.busy, busy] using prints.spells
    | false =>
        obtain ⟨rfl, rfl⟩ := prints.spells.of_idle busy
        cases iStb with
        | true =>
            rw [takes, Printer.busy, busy]
            exact .accept busy iWord _
        | false =>
            rw [takes, Bool.false_and, if_neg Bool.false_ne_true, List.append_nil]
            exact .idle (by simp [Deword.step, busy])

/-- One clock at which an item goes from `wbudeword` to `wbucompactlines`. -/
theorem Prints.transfer (prints : printer.Prints sent out done begun items)
    (busy : printer.deword.stb = true) (free : printer.linepacker.busy = false) (iStb : Bool)
    (iWord : Word) (iBusBusy iTxBusy : Bool) :
    ∃ done' begun' items', (printer.step iStb iWord iBusBusy iTxBusy).Prints
      (sent ++ printer.takes iStb iWord) (out ++ printer.sends iTxBusy) done' begun' items' := by
  have chars : (items ++ printer.emits
      (printer.step iStb iWord iBusBusy iTxBusy).linepacker).map itemChar =
        out ++ printer.sends iTxBusy ++ (printer.step iStb iWord iBusBusy iTxBusy).held := by
    rw [List.map_append, prints.chars, List.append_assoc, List.append_assoc,
      held_step printer iStb iWord iBusBusy iTxBusy]
  have none : printer.takes iStb iWord = [] := by simp [takes, Printer.busy, busy]
  have next : (printer.step iStb iWord iBusBusy iTxBusy).deword =
      printer.deword.step iStb iWord false := by rw [← free]; rfl
  have lastInNl : (printer.step iStb iWord iBusBusy iTxBusy).linepacker.lastInNl =
      printer.deword.nlHexbits.getLsbD 6 := by simp [step, CompactLines.step, busy, free]
  rw [none, List.append_nil]
  obtain ⟨newline, rfl, spells⟩ | ⟨value, six, done', begun', spells, lined⟩ :=
    prints.spells.transfer prints.lined busy iStb iWord
  · refine ⟨done, [], _, by rwa [next], ?_, fun _ => rfl, chars⟩
    by_cases kept : (printer.step iStb iWord iBusBusy iTxBusy).linepacker.stb = true
    · have bits : item (printer.step iStb iWord iBusBusy iTxBusy).linepacker.nlHexbits = .none := by
        simpa [step, CompactLines.step, busy, free] using newline
      rw [emits, free, kept, bits]
      exact prints.lined.newline
    · simpa [emits, kept] using prints.lined
  · have clear : printer.deword.nlHexbits.getLsbD 6 = false := by
      unfold item at six
      split at six
      · cases six
      · next clear => simpa using clear
    refine ⟨done', begun', _, by rwa [next], ?_, ?_, chars⟩
    · have new : printer.emits (printer.step iStb iWord iBusBusy iTxBusy).linepacker =
          [some value] := by
        simp [emits, step, CompactLines.step, busy, free, six]
        intro _
        simpa using clear
      rw [new]
      exact lined
    · rw [lastInNl, clear]
      nofun

theorem Prints.step (prints : printer.Prints sent out done begun items) (iStb : Bool) (iWord : Word)
    (iBusBusy iTxBusy : Bool) :
    ∃ done' begun' items', (printer.step iStb iWord iBusBusy iTxBusy).Prints
      (sent ++ printer.takes iStb iWord) (out ++ printer.sends iTxBusy) done' begun' items' := by
  cases moves : printer.deword.stb && !printer.linepacker.busy with
  | false => exact ⟨_, _, _, prints.apart moves iStb iWord iBusBusy iTxBusy⟩
  | true =>
      simp only [Bool.and_eq_true, Bool.not_eq_true'] at moves
      exact prints.transfer moves.1 moves.2 iStb iWord iBusBusy iTxBusy

end Printer

end ZipVersa.DebugBus
