import ZipVersa.DebugBus.Printer
import ZipVersa.Lib.Clocked
import Mathlib.Data.List.Induction
import Mathlib.Data.List.ReduceOption

/-! The lines of the return channel. `wbudeword` ends every codeword in a
newline; `wbucompactlines` drops most of these and adds one of its own when the
bus is idle. Its counter lags the characters it lets pass by a few clocks, but
never when it takes up the next one. -/

set_option autoImplicit false

namespace ZipVersa.DebugBus

open Lib

/-! ### Text in lines -/

/-- The length of the line a text ends in. -/
def column (text : List Byte) : Nat :=
  text.foldl (fun length char => if char = newline then 0 else length + 1) 0

theorem column_append (text : List Byte) (char : Byte) :
    column (text ++ [char]) = if char = newline then 0 else column text + 1 := by
  rw [column, List.foldl_append]
  rfl

/-- Text without an empty line and without a line longer than `limit`, the last
one included. -/
inductive Formatted (limit : Nat) : List Byte → Prop where
  | nil : Formatted limit []
  | eol {text : List Byte} :
      Formatted limit text → column text ≠ 0 → Formatted limit (text ++ [newline])
  | char {text : List Byte} {char : Byte} :
      Formatted limit text → char ≠ newline → column text < limit →
      Formatted limit (text ++ [char])

variable {limit : Nat} {text : List Byte}

theorem Formatted.dropLast (formatted : Formatted limit text) : Formatted limit text.dropLast := by
  cases formatted with
  | nil => exact .nil
  | eol before _ => rwa [List.dropLast_concat]
  | char before _ _ => rwa [List.dropLast_concat]

theorem Formatted.front {first second : List Byte} (formatted : Formatted limit (first ++ second)) :
    Formatted limit first := by
  induction second using List.reverseRecOn with
  | nil => rwa [List.append_nil] at formatted
  | append_singleton rest last ih =>
      rw [← List.append_assoc] at formatted
      have shorter := formatted.dropLast
      rw [List.dropLast_concat] at shorter
      exact ih shorter

theorem Formatted.column_le (formatted : Formatted limit text) : column text ≤ limit := by
  cases formatted with
  | nil => exact Nat.zero_le limit
  | eol _ _ =>
      rw [column_append, if_pos rfl]
      exact Nat.zero_le limit
  | char _ other room =>
      rw [column_append, if_neg other]
      exact room

theorem le_column (before : List Byte) {line : List Byte} (whole : newline ∉ line) :
    line.length ≤ column (before ++ line) := by
  induction line using List.reverseRecOn with
  | nil => exact Nat.zero_le _
  | append_singleton rest last ih =>
      have other : last ≠ newline := fun same => whole (by simp [same])
      have shorter := ih fun member => whole (List.mem_append_left _ member)
      rw [← List.append_assoc, column_append, if_neg other, List.length_append]
      exact Nat.succ_le_succ shorter

/-- No line is longer. -/
theorem Formatted.short (formatted : Formatted limit text) {line : List Byte}
    (inside : line <:+: text) (whole : newline ∉ line) : line.length ≤ limit := by
  obtain ⟨before, after, rfl⟩ := inside
  exact Nat.le_trans (le_column before whole) formatted.front.column_le

/-- No line is empty. -/
theorem Formatted.single (formatted : Formatted limit text) : ¬ [newline, newline] <:+: text := by
  rintro ⟨before, after, rfl⟩
  have ends := formatted.front
  rw [show before ++ [newline, newline] = before ++ [newline] ++ [newline] by simp] at ends
  generalize same : before ++ [newline] ++ [newline] = double at ends
  cases ends with
  | nil => simp at same
  | eol _ some =>
      obtain ⟨rfl, -⟩ := List.append_inj' same rfl
      rw [column_append, if_pos rfl] at some
      exact some rfl
  | char _ other _ =>
      obtain ⟨-, last⟩ := List.append_inj' same rfl
      exact other (List.cons.inj last).1.symm

/-! ### Codewords between newlines -/

def spelling (words : List Word) : List Byte := (words.flatMap spell).map charenc

theorem charenc_ne_newline (value : Six) : charenc value ≠ newline := fun same => by
  have decoded := chardec_charenc value
  rw [same, chardec_newline] at decoded
  cases decoded

theorem itemChar_eq_newline {value : Item} : itemChar value = newline ↔ value = none := by
  cases value with
  | none => exact iff_of_true rfl rfl
  | some value => exact iff_of_false (charenc_ne_newline value) (Option.some_ne_none value)

variable {words : List Word} {begun : List Six} {items : List Item}

theorem Lined.values (lined : Lined words begun items) :
    items.reduceOption = words.flatMap spell ++ begun := by
  induction lined with
  | nil => rfl
  | newline _ ih =>
      rw [List.reduceOption_append, ih]
      exact List.append_nil _
  | six value _ ih =>
      rw [List.reduceOption_append, ih, ← List.append_assoc]
      rfl
  | word word _ ih => rw [ih, List.flatMap_append, List.flatMap_singleton, List.append_nil]

/-- Before a newline there are whole codewords. -/
theorem Lined.before {front back : List Item} (lined : Lined words begun (front ++ none :: back)) :
    ∃ whole, whole <+: words ∧ front.reduceOption = whole.flatMap spell := by
  generalize same : front ++ none :: back = items at lined
  induction lined generalizing back with
  | nil => simp at same
  | @newline words items lined ih =>
      rcases List.eq_nil_or_concat back with rfl | ⟨rest, last, rfl⟩
      · obtain ⟨rfl, -⟩ := List.append_inj' same rfl
        exact ⟨words, List.prefix_rfl, by rw [lined.values, List.append_nil]⟩
      · rw [List.concat_eq_append, ← List.cons_append, ← List.append_assoc] at same
        exact ih (List.append_inj' same rfl).1
  | @six words begun items value _ ih =>
      rcases List.eq_nil_or_concat back with rfl | ⟨rest, last, rfl⟩
      · have ends := (List.append_inj' same rfl).2
        cases ends
      · rw [List.concat_eq_append, ← List.cons_append, ← List.append_assoc] at same
        exact ih (List.append_inj' same rfl).1
  | word word _ ih =>
      obtain ⟨whole, front', values⟩ := ih same
      exact ⟨whole, front'.trans (List.prefix_append _ _), values⟩

theorem filter_items (items : List Item) :
    (items.map itemChar).filter (· ≠ newline) = items.reduceOption.map charenc := by
  induction items with
  | nil => rfl
  | cons value rest ih =>
      cases value with
      | none =>
          rw [List.map_cons, List.filter_cons_of_neg (by simp [itemChar]), ih,
            List.reduceOption_cons_of_none]
      | some value =>
          rw [List.map_cons, List.filter_cons_of_pos (by simp [itemChar, charenc_ne_newline]), ih,
            List.reduceOption_cons_of_some, List.map_cons]
          rfl

namespace Printer

/-! ### The counter -/

/-- The columns of a terminal, and the longest codeword. -/
def longest : Nat := 72 + 6

/-- What `wbucompactlines` has passed on. -/
def passed (lines : CompactLines) (text : List Byte) : List Byte :=
  if lines.stb then text.dropLast else text

/-- `text` is all that `wbucompactlines` has taken up. -/
structure Formats (printer : Printer) (text : List Byte) : Prop where
  formatted : Formatted longest text
  last : printer.linepacker.stb = true →
    text.getLast? = some (itemChar (item printer.linepacker.nlHexbits))
  linelen : printer.linepacker.linelen.toNat = column (passed printer.linepacker text)
  lastOutNl : printer.linepacker.lastOutNl = true ↔ column (passed printer.linepacker text) = 0
  fullLine : printer.linepacker.busy = false →
    printer.linepacker.fullLine = decide (72 < printer.linepacker.linelen)
  room : if printer.deword.stb then column text + printer.deword.rLen.toNat ≤ longest
    else column text ≤ 72

variable {printer : Printer} {text : List Byte} {sent done : List Word}

/-- `wbudeword` while nothing is taken from it. -/
theorem Formats.room_stalled (formats : printer.Formats text) {shorter : List Byte}
    (less : column shorter ≤ column text) {iStb iTxBusy : Bool} {iWord : Word}
    (apart : (printer.deword.stb && !iTxBusy) = false) :
    if (printer.deword.step iStb iWord iTxBusy).stb then
      column shorter + (printer.deword.step iStb iWord iTxBusy).rLen.toNat ≤ longest
    else column shorter ≤ 72 := by
  have room := formats.room
  cases holds : printer.deword.stb with
  | true =>
      have busy : iTxBusy = true := by simpa [holds] using apart
      rw [busy, Deword.step_stalled fun _ => holds, holds, if_pos rfl]
      rw [holds, if_pos rfl] at room
      omega
  | false =>
      rw [holds, if_neg Bool.false_ne_true] at room
      cases iStb with
      | true =>
          have range := wLen_range iWord
          have accepted : printer.deword.step true iWord iTxBusy =
              ⟨true, (0 : BitVec 1) ++ iWord.extractLsb' 30 6, wLen iWord,
                iWord.extractLsb' 0 30⟩ := by
            simp [Deword.step, holds]
          rw [accepted, if_pos rfl, longest]
          dsimp only
          omega
      | false =>
          have idle : (printer.deword.step false iWord iTxBusy).stb = false := by
            simp [Deword.step, holds]
          rw [idle, if_neg Bool.false_ne_true]
          omega

theorem newline_bit (bits : BitVec 7) :
    bits.getLsbD 6 = true ↔ itemChar (item bits) = newline := by
  rw [itemChar_eq_newline, item]
  split <;> simp_all

/-- The counter takes up the character that is passed on. -/
theorem Formats.counts (formats : printer.Formats text) (holds : printer.linepacker.stb = true) :
    (if printer.linepacker.nlHexbits.getLsbD 6 then 0 else printer.linepacker.linelen + 1).toNat =
        column text ∧
      (printer.linepacker.nlHexbits.getLsbD 6 = true ↔ column text = 0) := by
  obtain ⟨before, rfl⟩ := List.getLast?_eq_some_iff.mp (formats.last holds)
  have linelen := formats.linelen
  rw [passed, if_pos holds, List.dropLast_concat] at linelen
  have bit := newline_bit printer.linepacker.nlHexbits
  have bound := formats.formatted.column_le
  rw [column_append] at bound ⊢
  by_cases ends : itemChar (item printer.linepacker.nlHexbits) = newline
  · rw [if_pos (bit.mpr ends), if_pos ends]
    exact ⟨rfl, fun _ => rfl, fun _ => bit.mpr ends⟩
  · rw [if_neg ends, longest] at bound
    rw [if_neg (mt bit.mp ends), if_neg ends, BitVec.toNat_add, linelen]
    exact ⟨Nat.mod_eq_of_lt (by simp; omega), fun shown => absurd (bit.mp shown) ends,
      fun none => absurd none (Nat.succ_ne_zero _)⟩

/-- One clock at which `wbucompactlines` is busy. -/
theorem Formats.busy (formats : printer.Formats text) (busy : printer.linepacker.busy = true)
    (iStb : Bool) (iWord : Word) (iBusBusy iTxBusy : Bool) :
    (printer.step iStb iWord iBusBusy iTxBusy).Formats text := by
  have stalled : (printer.deword.stb && !printer.linepacker.busy) = false := by simp [busy]
  have room := @room_stalled _ _ formats text (Nat.le_refl _) iStb _ iWord stalled
  have held : (printer.step iStb iWord iBusBusy iTxBusy).linepacker.nlHexbits =
      printer.linepacker.nlHexbits := by simp [step, CompactLines.step, busy]
  cases holds : printer.linepacker.stb with
  | true =>
      cases taken : printer.mkbytes.stb with
      | false =>
          have free : (printer.step iStb iWord iBusBusy iTxBusy).linepacker.stb = false := by
            simp [step, CompactLines.step, busy, taken]
          obtain ⟨counted, ends⟩ := formats.counts holds
          refine ⟨formats.formatted, fun shown => ?_, ?_, ?_, fun idle => ?_, room⟩
          · rw [free] at shown
            cases shown
          · rw [passed, free, if_neg Bool.false_ne_true, ← counted]
            simp [step, CompactLines.step, taken, holds]
          · rw [passed, free, if_neg Bool.false_ne_true, ← ends]
            simp [step, CompactLines.step, taken, holds]
          · have stays : (printer.step iStb iWord iBusBusy iTxBusy).linepacker.rBusy = true := holds
            rw [CompactLines.busy, stays] at idle
            cases idle
      | true =>
          have same : (printer.step iStb iWord iBusBusy iTxBusy).linepacker.stb = true := by
            simp [step, CompactLines.step, busy, taken, holds]
          have linelen := formats.linelen
          have lastOutNl := formats.lastOutNl
          rw [passed, holds] at linelen lastOutNl
          refine ⟨formats.formatted, fun _ => held ▸ formats.last holds, ?_, ?_, fun idle => ?_, room⟩
          · rw [passed, same, ← linelen]
            simp [step, CompactLines.step, taken]
          · rw [passed, same, ← lastOutNl]
            simp [step, CompactLines.step, taken]
          · rw [CompactLines.busy, same, Bool.or_true] at idle
            cases idle
  | false =>
      have quiet : (printer.step iStb iWord iBusBusy iTxBusy).linepacker.stb = false := by
        simp [step, CompactLines.step, busy, holds]
      have linelen := formats.linelen
      have lastOutNl := formats.lastOutNl
      rw [passed, holds] at linelen lastOutNl
      refine ⟨formats.formatted, fun shown => ?_, ?_, ?_, fun _ => ?_, room⟩
      · rw [quiet] at shown
        cases shown
      · rw [passed, quiet, ← linelen]
        simp [step, CompactLines.step, holds]
      · rw [passed, quiet, ← lastOutNl]
        simp [step, CompactLines.step, holds]
      · simp [step, CompactLines.step, holds]

/-- One clock at which `wbucompactlines` may take up a character. The counter
stands. -/
theorem Formats.free (formats : printer.Formats text) (free : printer.linepacker.busy = false)
    {next : Printer} {iStb : Bool} {iWord : Word} {iBusBusy iTxBusy : Bool}
    (stepped : next = printer.step iStb iWord iBusBusy iTxBusy)
    (formatted : Formatted longest (text ++ (printer.emits next.linepacker).map itemChar))
    (room : if next.deword.stb then
        column (text ++ (printer.emits next.linepacker).map itemChar) + next.deword.rLen.toNat ≤
          longest
      else column (text ++ (printer.emits next.linepacker).map itemChar) ≤ 72) :
    next.Formats (text ++ (printer.emits next.linepacker).map itemChar) := by
  have empty : printer.linepacker.stb = false := by
    rw [CompactLines.busy, Bool.or_eq_false_iff] at free
    exact free.2
  have linelen : next.linepacker.linelen = printer.linepacker.linelen := by
    simp [stepped, step, CompactLines.step, empty]
  have lastOutNl : next.linepacker.lastOutNl = printer.linepacker.lastOutNl := by
    simp [stepped, step, CompactLines.step, empty]
  have fullLine : next.linepacker.fullLine = decide (72 < printer.linepacker.linelen) := by
    rw [stepped]
    rfl
  have before : passed printer.linepacker text = text := by simp [passed, empty]
  have after : passed next.linepacker (text ++ (printer.emits next.linepacker).map itemChar) =
      text := by
    cases up : next.linepacker.stb <;> simp [passed, emits, free, up]
  refine ⟨formatted, fun up => ?_, ?_, ?_, fun _ => ?_, room⟩
  · simp [emits, free, up]
  · rw [after, linelen, formats.linelen, before]
  · rw [after, lastOutNl, formats.lastOutNl, before]
  · rw [fullLine, linelen]

/-- Nothing is offered: at most a newline is added, after a line. -/
theorem Formats.idle (formats : printer.Formats text) (free : printer.linepacker.busy = false)
    (idle : printer.deword.stb = false) (iStb : Bool) (iWord : Word) (iBusBusy iTxBusy : Bool) :
    (printer.step iStb iWord iBusBusy iTxBusy).Formats (text ++ (printer.emits
      (printer.step iStb iWord iBusBusy iTxBusy).linepacker).map itemChar) := by
  have empty : printer.linepacker.stb = false := by
    rw [CompactLines.busy, Bool.or_eq_false_iff] at free
    exact free.2
  have apart : (printer.deword.stb && !printer.linepacker.busy) = false := by simp [idle]
  cases up : (printer.step iStb iWord iBusBusy iTxBusy).linepacker.stb with
  | false =>
      have none : printer.emits (printer.step iStb iWord iBusBusy iTxBusy).linepacker = [] := by
        simp [emits, up]
      refine formats.free free rfl ?_ ?_
      · rw [none, List.map_nil, List.append_nil]
        exact formats.formatted
      · rw [none, List.map_nil, List.append_nil]
        exact @room_stalled _ _ formats text (Nat.le_refl _) iStb _ iWord apart
  | true =>
      have eol : (printer.emits (printer.step iStb iWord iBusBusy iTxBusy).linepacker).map
          itemChar = [newline] := by
        simp [emits, up, free]
        simp [step, CompactLines.step, idle, free, item, itemChar]
      have inLine : column text ≠ 0 := fun none => by
        have last := formats.lastOutNl
        rw [passed, empty, if_neg Bool.false_ne_true] at last
        simp [step, CompactLines.step, idle, free, last.mpr none] at up
      refine formats.free free rfl ?_ ?_
      · rw [eol]
        exact formats.formatted.eol inLine
      · rw [eol]
        refine @room_stalled _ _ formats _ ?_ iStb _ iWord apart
        rw [column_append, if_pos rfl]
        exact Nat.zero_le _

/-- `wbudeword` offers the newline after a codeword. -/
theorem Formats.newline (formats : printer.Formats text) (free : printer.linepacker.busy = false)
    (busy : printer.deword.stb = true) (rLen : printer.deword.rLen = 0)
    (bits : printer.deword.nlHexbits = 0x40) (iStb : Bool) (iWord : Word) (iBusBusy iTxBusy : Bool) :
    (printer.step iStb iWord iBusBusy iTxBusy).Formats (text ++ (printer.emits
      (printer.step iStb iWord iBusBusy iTxBusy).linepacker).map itemChar) := by
  have empty : printer.linepacker.stb = false := by
    rw [CompactLines.busy, Bool.or_eq_false_iff] at free
    exact free.2
  have done : (printer.step iStb iWord iBusBusy iTxBusy).deword.stb = false := by
    simp [step, Deword.step, busy, rLen, free]
  have up : (printer.step iStb iWord iBusBusy iTxBusy).linepacker.stb =
      printer.linepacker.fullLine := by
    simp [step, CompactLines.step, busy, free, bits]
  have counted := formats.linelen
  rw [passed, empty, if_neg Bool.false_ne_true] at counted
  have full := formats.fullLine free
  cases long : printer.linepacker.fullLine with
  | false =>
      have none : printer.emits (printer.step iStb iWord iBusBusy iTxBusy).linepacker = [] := by
        simp [emits, up, long]
      have within : column text ≤ 72 := by
        rw [long] at full
        have bound := of_decide_eq_false full.symm
        rw [BitVec.lt_def, counted] at bound
        exact Nat.not_lt.mp bound
      refine formats.free free rfl ?_ ?_
      · rw [none, List.map_nil, List.append_nil]
        exact formats.formatted
      · rw [none, List.map_nil, List.append_nil, done, if_neg Bool.false_ne_true]
        exact within
  | true =>
      have eol : (printer.emits (printer.step iStb iWord iBusBusy iTxBusy).linepacker).map
          itemChar = [DebugBus.newline] := by
        simp [emits, up, long, free]
        simp [step, CompactLines.step, busy, free, bits, item, itemChar]
      have inLine : column text ≠ 0 := by
        rw [long] at full
        have bound := of_decide_eq_true full.symm
        rw [BitVec.lt_def, counted] at bound
        exact Nat.ne_of_gt (Nat.zero_lt_of_lt bound)
      refine formats.free free rfl ?_ ?_
      · rw [eol]
        exact formats.formatted.eol inLine
      · rw [eol, done, if_neg Bool.false_ne_true, column_append, if_pos rfl]
        exact Nat.zero_le _

/-- `wbudeword` offers a character of a codeword. -/
theorem Formats.char (formats : printer.Formats text) (free : printer.linepacker.busy = false)
    (busy : printer.deword.stb = true) (six : printer.deword.nlHexbits.getLsbD 6 = false)
    (some : 0 < printer.deword.rLen.toNat) (iStb : Bool) (iWord : Word) (iBusBusy iTxBusy : Bool) :
    (printer.step iStb iWord iBusBusy iTxBusy).Formats (text ++ (printer.emits
      (printer.step iStb iWord iBusBusy iTxBusy).linepacker).map itemChar) := by
  have running : printer.deword.rLen ≠ 0#3 := fun none => by
    rw [none] at some
    exact absurd some (by decide)
  have more : (printer.step iStb iWord iBusBusy iTxBusy).deword.stb = true ∧
      (printer.step iStb iWord iBusBusy iTxBusy).deword.rLen = printer.deword.rLen - 1 := by
    have positive : 0#3 < printer.deword.rLen := BitVec.lt_def.mpr some
    simp [step, Deword.step, busy, free, running, positive]
  have fewer : (printer.deword.rLen - 1).toNat = printer.deword.rLen.toNat - 1 :=
    BitVec.toNat_sub_of_le (BitVec.le_def.mpr some)
  have emitted : (printer.emits (printer.step iStb iWord iBusBusy iTxBusy).linepacker).map
      itemChar = [itemChar (item printer.deword.nlHexbits)] := by
    rw [BitVec.getLsbD_eq_getElem (by decide)] at six
    simp [emits, step, CompactLines.step, busy, free, six]
  have other : itemChar (item printer.deword.nlHexbits) ≠ DebugBus.newline := fun same => by
    have bit := (newline_bit printer.deword.nlHexbits).mpr same
    rw [six] at bit
    cases bit
  have room := formats.room
  rw [busy, if_pos rfl] at room
  refine formats.free free rfl ?_ ?_
  · rw [emitted]
    exact formats.formatted.char other (by omega)
  · rw [emitted, more.1, if_pos rfl, more.2, fewer, column_append, if_neg other]
    omega

/-! ### Runs -/

/-- The wires into the printing circuits at a clock. -/
structure Clock where
  iStb : Bool
  iWord : Word
  iBusBusy : Bool
  iTxBusy : Bool
  deriving DecidableEq, Repr

def clock (printer : Printer) (clock : Clock) : Printer :=
  printer.step clock.iStb clock.iWord clock.iBusBusy clock.iTxBusy

def codewords (printer : Printer) (clock : Clock) : List Word := printer.takes clock.iStb clock.iWord

def chars (printer : Printer) (clock : Clock) : List Byte := printer.sends clock.iTxBusy

/-- The registers after configuration. -/
def init : Printer := ⟨⟨false, 0x40, 0, 0⟩, ⟨true, true, 0, false, false, 0, false⟩, ⟨false, 0⟩⟩

/-- The characters of codewords that have come in and are still to go out. -/
def pending (printer : Printer) : List Byte :=
  printer.held.filter (· ≠ newline) ++
    if printer.deword.stb && printer.deword.rLen ≠ 0 then printer.deword.rest.map charenc else []

variable {out : List Byte} {begun : List Six} {items : List Item}

theorem Formats.step (formats : printer.Formats (out ++ printer.held))
    (spells : printer.deword.Spells sent done begun) (iStb : Bool) (iWord : Word)
    (iBusBusy iTxBusy : Bool) :
    (printer.step iStb iWord iBusBusy iTxBusy).Formats (out ++ printer.sends iTxBusy ++
      (printer.step iStb iWord iBusBusy iTxBusy).held) := by
  rw [List.append_assoc, ← held_step printer iStb iWord iBusBusy iTxBusy, ← List.append_assoc]
  cases free : printer.linepacker.busy with
  | true =>
      have none : printer.emits (printer.step iStb iWord iBusBusy iTxBusy).linepacker = [] := by
        simp [emits, free]
      rw [none, List.map_nil, List.append_nil]
      exact formats.busy free iStb iWord iBusBusy iTxBusy
  | false =>
      cases spells with
      | idle idle => exact formats.idle free idle iStb iWord iBusBusy iTxBusy
      | newline busy rLen bits => exact formats.newline free busy rLen bits iStb iWord iBusBusy iTxBusy
      | word busy six some _ _ => exact formats.char free busy six some iStb iWord iBusBusy iTxBusy

/-- The circuits after `sent` has come in and `out` has gone out. -/
def Lines (printer : Printer) (sent : List Word) (out : List Byte) : Prop :=
  printer.Formats (out ++ printer.held) ∧
    ∃ done begun items, printer.Prints sent out done begun items

theorem init_lines : init.Lines [] [] :=
  ⟨⟨.nil, (fun up => nomatch up), rfl, iff_of_true rfl rfl, fun _ => rfl, Nat.zero_le _⟩,
    [], [], [], .idle rfl, .nil, fun _ => rfl, rfl⟩

theorem Lines.run (lines : printer.Lines sent out) (clocks : List Clock) :
    (clocked clock printer clocks).Lines (sent ++ observed clock codewords printer clocks)
      (out ++ observed clock chars printer clocks) := by
  induction clocks generalizing printer sent out with
  | nil => simpa [observed] using lines
  | cons first rest ih =>
      obtain ⟨formats, done, begun, items, prints⟩ := lines
      rw [observed, observed, ← List.append_assoc, ← List.append_assoc]
      exact ih ⟨formats.step prints.spells first.iStb first.iWord first.iBusBusy first.iTxBusy,
        prints.step first.iStb first.iWord first.iBusBusy first.iTxBusy⟩

/-- What goes out for some codewords: their characters in order, a newline only
after whole codewords, no two newlines in a row, and no line longer than the
counter's 72 characters and the six of a codeword. -/
structure Printed (words : List Word) (out pending : List Byte) : Prop where
  spelled : out.filter (· ≠ newline) ++ pending = spelling words
  between : ∀ before after, out = before ++ newline :: after →
    ∃ whole, whole <+: words ∧ before.filter (· ≠ newline) = spelling whole
  single : ¬ [newline, newline] <:+: out
  short : ∀ line, line <:+: out → newline ∉ line → line.length ≤ 72 + 6

theorem Prints.spelled (prints : printer.Prints sent out done begun items) :
    out.filter (· ≠ newline) ++ printer.pending = spelling sent := by
  have text := congrArg (List.filter (· ≠ newline)) prints.chars
  rw [filter_items, prints.lined.values, List.filter_append] at text
  rw [pending, ← List.append_assoc, ← text, spelling]
  cases prints.spells with
  | idle idle => simp [idle]
  | newline busy rLen _ => simp [rLen]
  | word busy _ some _ spelled =>
      have running : printer.deword.rLen ≠ 0#3 := fun none => by
        rw [none] at some
        exact absurd some (by decide)
      simp [busy, running, spelled]

theorem Spells.done_begins {deword : Deword} (spells : deword.Spells sent done begun) :
    done <+: sent := by
  cases spells with
  | idle _ => exact List.prefix_rfl
  | newline _ _ _ => exact List.prefix_rfl
  | word _ _ _ _ _ => exact List.prefix_append _ _

theorem Prints.between_words (prints : printer.Prints sent out done begun items)
    {before after : List Byte} (split : out = before ++ newline :: after) :
    ∃ whole, whole <+: sent ∧ before.filter (· ≠ newline) = spelling whole := by
  have text := prints.chars
  rw [split, List.append_assoc, List.map_eq_append_iff] at text
  obtain ⟨front, back, rfl, rfl, later⟩ := text
  obtain ⟨value, back, rfl, char, -⟩ := List.map_eq_cons_iff.mp later
  rw [itemChar_eq_newline.mp char] at prints
  obtain ⟨whole, inside, values⟩ := prints.lined.before
  exact ⟨whole, inside.trans (Spells.done_begins prints.spells), by
    rw [filter_items, values, spelling]⟩

/-- Whatever comes in and however the line and the bus are busy. -/
theorem return_channel_printed (clocks : List Clock) :
    Printed (observed clock codewords init clocks) (observed clock chars init clocks)
      (clocked clock init clocks).pending := by
  obtain ⟨formats, done, begun, items, prints⟩ := init_lines.run clocks
  rw [List.nil_append, List.nil_append] at prints
  rw [List.nil_append] at formats
  have formatted := formats.formatted.front
  exact ⟨prints.spelled, fun _ _ split => prints.between_words split, formatted.single,
    fun _ inside whole => formatted.short inside whole⟩

end Printer

end ZipVersa.DebugBus
