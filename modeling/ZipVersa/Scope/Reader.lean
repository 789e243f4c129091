import ZipVersa.Lib.RunLength
import Mathlib.Data.List.Basic
import Mathlib.Data.Nat.Cast.Basic

/-! The host's reader of a scope's buffer: `getaddresslen`, `print` and `writevcd`
of `SCOPE`. -/

set_option autoImplicit false

namespace ZipVersa.Scope

open Lib

/-- A `SCOPE` whose buffer has been read. `m_scoplen` is `1<<lgln` with five bits of
`lgln`. -/
structure Reader where
  compressed : Bool
  data : List (BitVec 32)
  holdoff : BitVec 32
  fits : data.length ≤ 2 ^ 31

/-- `m_data[i]&0x7fffffff`. -/
def steps (word : BitVec 32) : BitVec 32 := word &&& 0x7fffffff

/-- A line of `print`, with the place `i` in the buffer of the word it shows. -/
inductive Line where
  | jump (count : BitVec 32)
  | stars
  | value (i address : Nat) (word : BitVec 32) (trigger : Bool)

/-- The line ends in `<--- TRIGGER`. -/
def Line.marked : Line → Option Nat
  | value i _ _ true => some i
  | _ => none

/-- What `writevcd` writes for one word: `trigger` is the value of `'T`, where it is
written. The times, which are floating point, are left out. -/
inductive Change where
  | drop (address : Nat)
  | sample (i address : Nat) (trigger : Option Bool) (raw : BitVec 32)

/-- `1'T` is written. -/
def Change.marked : Change → Option Nat
  | sample i _ (some true) _ => some i
  | _ => none

namespace Reader

def scoplen (scope : Reader) : BitVec 32 := BitVec.ofNat 32 scope.data.length

/-- `for(int i=0; i<(int)m_scoplen; i++)`. -/
def words (scope : Reader) : List (BitVec 32 × Nat) :=
  (scope.data.take scope.scoplen.toInt.toNat).zipIdx

def addLength (alen : BitVec 32) (word : BitVec 32 × Nat) : BitVec 32 :=
  if word.1.msb ∧ word.2 ≠ 0 then alen + steps word.1 else alen

def getaddresslen (scope : Reader) : BitVec 32 :=
  if scope.compressed then scope.words.foldl addLength scope.scoplen else scope.scoplen

/-- `alen - m_holdoff -1`. -/
def offset (scope : Reader) : BitVec 32 := scope.getaddresslen - scope.holdoff - 1

/-- The loop of `print` over a compressed buffer; `addrv` has been incremented when it
is compared. -/
def printCompressed (offset : BitVec 32) (addrv : Nat) : List (BitVec 32 × Nat) → List Line
  | [] => []
  | (word, i) :: rest =>
      if word.msb then
        .jump (steps word) :: printCompressed offset (addrv + (steps word).toNat + 1) rest
      else
        .value i addrv word (BitVec.ofNat 32 (addrv + 1) = offset) ::
          printCompressed offset (addrv + 1) rest

/-- A line that shows the same as the one before, and is not the last. -/
def skipped (scope : Reader) (word : BitVec 32) (i : Nat) : Bool :=
  0 < i ∧ word = scope.data.getD (i - 1) 0 ∧ (i : Int) < (scope.scoplen - 1).toInt

def printPlain (scope : Reader) (word : BitVec 32 × Nat) : List Line :=
  if scope.skipped word.1 word.2 then
    if 2 < word.2 ∧ word.1 ≠ scope.data.getD (word.2 - 2) 0 then [.stars] else []
  else [.value word.2 word.2 word.1 (BitVec.ofNat 32 word.2 = scope.offset)]

/-- `SCOPE::print`. -/
def print (scope : Reader) : List Line :=
  if scope.compressed then printCompressed scope.offset 0 scope.words
  else scope.words.flatMap scope.printPlain

/-- The loop of `writevcd` over a compressed buffer, which compares `addrv-alen`. -/
def vcdCompressed (offset alen : BitVec 32) (addrv : Nat) (lastTrigger : Bool) :
    List (BitVec 32 × Nat) → List Change
  | [] => []
  | (word, i) :: rest =>
      if word.msb then
        if i = 0 then vcdCompressed offset alen addrv lastTrigger rest
        else
          (if lastTrigger then [.drop (addrv + 1)] else []) ++
            vcdCompressed offset alen (addrv + (steps word).toNat + 1) lastTrigger rest
      else if BitVec.ofNat 32 addrv - alen = offset then
        .sample i addrv (some true) (steps word) :: vcdCompressed offset alen (addrv + 1) true rest
      else
        .sample i addrv (if lastTrigger then some false else none) (steps word) ::
          vcdCompressed offset alen (addrv + 1) lastTrigger rest

def vcdPlain (scope : Reader) (word : BitVec 32 × Nat) : Change :=
  .sample word.2 word.2 (some (BitVec.ofNat 32 word.2 = scope.offset)) word.1

/-- `SCOPE::writevcd`, after the header. -/
def writevcd (scope : Reader) : List Change :=
  if scope.compressed then vcdCompressed scope.offset scope.getaddresslen 0 true scope.words
  else scope.words.map scope.vcdPlain

/-! ### The expanded record -/

/-- A word as `getaddresslen` counts it: the first one always stands for one sample. -/
def token (word : BitVec 32 × Nat) : Token (BitVec 32) :=
  if word.1.msb ∧ word.2 ≠ 0 then .again (steps word.1).toNat else .sample word.1

def tokens (scope : Reader) : List (Token (BitVec 32)) :=
  if scope.compressed then scope.data.zipIdx.map token else scope.data.map .sample

/-- The place of a word in the expanded record. -/
def position (scope : Reader) (i : Nat) : Nat := Token.position scope.tokens i

/-- What is marked at the place of a word is marked at its sample. -/
theorem sample_at_position {scope : Reader} {i : Nat} {value : BitVec 32}
    (sampled : scope.tokens[i]? = some (.sample value)) :
    (Token.expand 0 scope.tokens)[scope.position i]? = some value :=
  Token.expand_position sampled

theorem data_of_sampled {scope : Reader} {i : Nat} {value : BitVec 32}
    (sampled : scope.tokens[i]? = some (.sample value)) : scope.data[i]? = some value := by
  rw [tokens] at sampled
  split at sampled
  · rw [List.getElem?_map, List.getElem?_zipIdx] at sampled
    cases found : scope.data[i]? with
    | none => simp [found] at sampled
    | some word =>
        simp only [found, Option.map_some, token, Option.some.injEq] at sampled
        split at sampled
        · cases sampled
        · rw [Token.sample.inj sampled]
  · rw [List.getElem?_map, Option.map_eq_some_iff] at sampled
    obtain ⟨word, found, same⟩ := sampled
    rw [found, Token.sample.inj same]

theorem words_eq {scope : Reader} (small : scope.data.length < 2 ^ 31) :
    scope.words = scope.data.zipIdx := by
  have same : scope.scoplen.toInt.toNat = scope.data.length := by
    have value : scope.scoplen.toNat = scope.data.length :=
      (BitVec.toNat_ofNat ..).trans (Nat.mod_eq_of_lt (by omega))
    rw [BitVec.toInt_eq_toNat_of_lt (by omega), value, Int.toNat_natCast]
  rw [words, same, List.take_length]

/-- `1<<31` is no positive `int`. -/
theorem words_none {scope : Reader} (large : scope.data.length = 2 ^ 31) : scope.words = [] := by
  rw [words, scoplen, large]
  rfl

theorem addLength_eq (alen : BitVec 32) (word : BitVec 32 × Nat) :
    addLength alen word + 1 = alen + BitVec.ofNat 32 (token word).length := by
  rw [addLength, token]
  split
  · rw [Token.length, BitVec.ofNat_add, BitVec.ofNat_toNat, BitVec.setWidth_eq, BitVec.add_assoc]
    rfl
  · rfl

theorem foldl_addLength (words : List (BitVec 32 × Nat)) (alen : BitVec 32) :
    words.foldl addLength alen + BitVec.ofNat 32 words.length =
      alen + BitVec.ofNat 32 ((words.map token).map Token.length).sum := by
  induction words generalizing alen with
  | nil => rfl
  | cons word words ih =>
      have step := addLength_eq alen word
      have rest := ih (addLength alen word)
      rw [List.foldl_cons, List.length_cons, List.map_cons, List.map_cons, List.sum_cons,
        BitVec.ofNat_add, BitVec.ofNat_add, ← BitVec.add_assoc, rest, ← BitVec.add_assoc, ← step,
        BitVec.add_assoc, BitVec.add_assoc]
      exact congrArg (addLength alen word + ·) (BitVec.add_comm ..)

/-- `getaddresslen` is the length of the expanded record. -/
theorem getaddresslen_eq {scope : Reader} (small : scope.data.length < 2 ^ 31) :
    scope.getaddresslen = BitVec.ofNat 32 (Token.expand 0 scope.tokens).length := by
  rw [Token.expand_length, getaddresslen, tokens, words_eq small]
  split
  · have whole := foldl_addLength scope.data.zipIdx scope.scoplen
    rw [List.length_zipIdx, ← scoplen, BitVec.add_comm, BitVec.add_right_inj] at whole
    exact whole
  · rw [List.map_map]
    have ones : scope.data.map (Token.length ∘ Token.sample) = List.replicate scope.data.length 1 :=
      List.map_const' ..
    rw [ones, scoplen, List.sum_replicate, nsmul_one, Nat.cast_id]

/-! ### The compressed buffer -/

/-- How far `print` goes on for a word. -/
def printed (word : BitVec 32) : Nat := if word.msb then (steps word).toNat + 1 else 1

/-- A mark of `print` is the sample before the one that is at `offset`. -/
theorem marked_printCompressed {offset : BitVec 32} {addrv i start : Nat}
    {words : List (BitVec 32)}
    (marked : i ∈ (printCompressed offset addrv (words.zipIdx start)).filterMap Line.marked) :
    start ≤ i ∧ BitVec.ofNat 32
      (addrv + ((words.take (i - start)).map printed).sum + 1) = offset := by
  induction words generalizing addrv start with
  | nil => cases marked
  | cons word words ih =>
      rw [List.zipIdx_cons, printCompressed] at marked
      have later : ∀ {past : Nat}, printed word = past →
          i ∈ (printCompressed offset (addrv + past) (words.zipIdx (start + 1))).filterMap
            Line.marked → start ≤ i ∧ BitVec.ofNat 32
              (addrv + (((word :: words).take (i - start)).map printed).sum + 1) = offset := by
        intro past same found
        obtain ⟨after, found⟩ := ih found
        refine ⟨by omega, ?_⟩
        have next : i - start = i - (start + 1) + 1 := by omega
        rw [next, List.take_succ_cons, List.map_cons, List.sum_cons, same, ← found]
        congr 1
        omega
      split at marked
      · next repeated =>
          refine later (if_pos repeated) ?_
          rw [List.filterMap_cons_none rfl] at marked
          exact marked
      · next sample =>
          have one : printed word = 1 := if_neg sample
          by_cases here : BitVec.ofNat 32 (addrv + 1) = offset
          · rw [List.filterMap_cons_some (b := start) (by simp [Line.marked, here])] at marked
            rcases List.mem_cons.mp marked with rfl | found
            · refine ⟨Nat.le_refl _, ?_⟩
              rw [Nat.sub_self]
              exact here
            · exact later one found
          · rw [List.filterMap_cons_none (by simp [Line.marked, here])] at marked
            exact later one marked

theorem steps_lt (word : BitVec 32) : (steps word).toNat < 2 ^ 31 := by
  have most : (steps word).toNat ≤ 0x7fffffff := by
    rw [steps, BitVec.toNat_and]
    exact Nat.and_le_right
  omega

theorem printed_eq (word : BitVec 32) {i : Nat} (later : i ≠ 0) :
    printed word = (token (word, i)).length := by
  rw [printed, token]
  by_cases repeated : word.msb = true
  · rw [if_pos repeated, if_pos ⟨repeated, later⟩]
    rfl
  · rw [if_neg repeated, if_neg fun both => repeated both.1]
    rfl

theorem position_zipIdx (words : List (BitVec 32)) {start : Nat} (later : start ≠ 0) (i : Nat) :
    ((words.take i).map printed).sum = Token.position ((words.zipIdx start).map token) i := by
  induction words generalizing start i with
  | nil => rw [List.take_nil, List.zipIdx_nil, List.map_nil, List.map_nil, Token.position_nil]; rfl
  | cons word words ih =>
      cases i with
      | zero => rfl
      | succ i =>
          rw [List.take_succ_cons, List.map_cons, List.sum_cons, ih (Nat.succ_ne_zero start),
            List.zipIdx_cons, List.map_cons, Token.position_succ, printed_eq word later]

/-- `print` is ahead of the record by what a repeat in the first word asks for. -/
theorem printed_ahead (words : List (BitVec 32)) (i : Nat) :
    ∃ ahead < 2 ^ 31, ((words.take i).map printed).sum =
      Token.position (words.zipIdx.map token) i + ahead := by
  cases words with
  | nil =>
      refine ⟨0, by omega, ?_⟩
      rw [List.take_nil, List.zipIdx_nil, List.map_nil, List.map_nil, Token.position_nil]
      rfl
  | cons word words =>
      cases i with
      | zero => exact ⟨0, by omega, rfl⟩
      | succ i =>
          have first : (token (word, 0)).length = 1 := by
            rw [token, if_neg fun both => both.2 rfl]
            rfl
          have rest := position_zipIdx words Nat.one_ne_zero i
          rw [List.take_succ_cons, List.map_cons, List.sum_cons, List.zipIdx_cons, List.map_cons,
            Token.position_succ, first, rest, printed, Nat.zero_add]
          have bound := steps_lt word
          split
          · exact ⟨(steps word).toNat, bound, by omega⟩
          · exact ⟨0, by omega, by omega⟩

/-- The place of the trigger in the record, as the reader computes it. -/
theorem offset_eq {scope : Reader} {place : Nat}
    (trigger : place + scope.holdoff.toNat + 1 = scope.getaddresslen.toNat) :
    scope.offset = BitVec.ofNat 32 place := by
  have whole : scope.getaddresslen = BitVec.ofNat 32 place + scope.holdoff + 1 := by
    apply BitVec.eq_of_toNat_eq
    have bound := scope.getaddresslen.isLt
    have one : (1 : BitVec 32).toNat = 1 := rfl
    rw [BitVec.toNat_add, BitVec.toNat_add, BitVec.toNat_ofNat, one, ← trigger]
    omega
  rw [offset, whole, BitVec.add_assoc, BitVec.add_comm scope.holdoff, ← BitVec.add_assoc,
    BitVec.add_sub_cancel, BitVec.add_sub_cancel]

/-- On a compressed buffer the sample at the trigger is not marked by `print`. -/
theorem unmarked_compressed {scope : Reader} {i : Nat} (compressed : scope.compressed = true)
    (trigger : scope.position i + scope.holdoff.toNat + 1 = scope.getaddresslen.toNat) :
    i ∉ scope.print.filterMap Line.marked := by
  intro marked
  rw [print, if_pos compressed] at marked
  rcases Nat.lt_or_ge scope.data.length (2 ^ 31) with small | large
  · rw [words_eq small] at marked
    obtain ⟨_, same⟩ := marked_printCompressed marked
    obtain ⟨ahead, few, place⟩ := printed_ahead scope.data i
    rw [position, tokens, if_pos compressed] at trigger
    rw [Nat.sub_zero, place, offset_eq trigger] at same
    have values := congrArg BitVec.toNat same
    rw [BitVec.toNat_ofNat, BitVec.toNat_ofNat] at values
    omega
  · rw [words_none (Nat.le_antisymm scope.fits large)] at marked
    cases marked

/-! ### The plain buffer -/

theorem flatMap_place {β : Type} {words : List (BitVec 32)} {word : BitVec 32} {i : Nat}
    (f : BitVec 32 × Nat → List β) (start : Nat) (found : words[i]? = some word)
    (others : ∀ other ∈ words.zipIdx start, other.2 ≠ start + i → f other = []) :
    (words.zipIdx start).flatMap f = f (word, start + i) := by
  induction words generalizing start i with
  | nil => cases found
  | cons first words ih =>
      rw [List.zipIdx_cons, List.flatMap_cons]
      cases i with
      | zero =>
          obtain rfl : first = word := Option.some.inj found
          have rest : (words.zipIdx (start + 1)).flatMap f = [] := by
            rw [List.flatMap_eq_nil_iff]
            intro other member
            have := List.le_snd_of_mem_zipIdx member
            exact others other (List.mem_cons_of_mem _ member) (by omega)
          rw [rest, List.append_nil, Nat.add_zero]
      | succ i =>
          have place : start + (i + 1) = start + 1 + i := by omega
          rw [others (first, start) List.mem_cons_self (by dsimp only; omega), List.nil_append, place]
          exact ih (start + 1) found fun other member elsewhere =>
            others other (List.mem_cons_of_mem _ member) (by omega)

/-- What one word adds to the marks of `print`. -/
theorem marked_printPlain (scope : Reader) (word : BitVec 32 × Nat) :
    (scope.printPlain word).filterMap Line.marked =
      if BitVec.ofNat 32 word.2 = scope.offset ∧ scope.skipped word.1 word.2 = false then [word.2]
      else [] := by
  rw [printPlain]
  cases skipped : scope.skipped word.1 word.2 with
  | true =>
      simp only [if_true, Bool.true_eq_false, and_false, if_false]
      split
      · rfl
      · rfl
  | false =>
      rw [if_neg Bool.false_ne_true]
      by_cases here : BitVec.ofNat 32 word.2 = scope.offset
      · rw [if_pos ⟨here, rfl⟩, List.filterMap_cons_some (b := word.2) (by simp [Line.marked, here])]
        rfl
      · rw [if_neg fun both => here both.1, List.filterMap_cons_none (by simp [Line.marked, here])]
        rfl

theorem ofNat_inj {i j : Nat} (small : i < 2 ^ 32) (also : j < 2 ^ 32) :
    BitVec.ofNat 32 i = BitVec.ofNat 32 j ↔ i = j := by
  constructor
  · intro same
    have values := congrArg BitVec.toNat same
    rwa [BitVec.toNat_ofNat, BitVec.toNat_ofNat, Nat.mod_eq_of_lt small, Nat.mod_eq_of_lt also]
      at values
  · exact congrArg _

section Plain

variable {scope : Reader} {i : Nat} {word : BitVec 32}

theorem position_plain (plain : scope.compressed = false) (inside : i ≤ scope.data.length) :
    scope.position i = i := by
  rw [position, tokens, plain, if_neg Bool.false_ne_true, Token.position, ← List.map_take,
    List.map_map]
  have ones : (scope.data.take i).map (Token.length ∘ Token.sample) =
      List.replicate (scope.data.take i).length 1 := List.map_const' ..
  rw [ones, List.length_take, Nat.min_eq_left inside, List.sum_replicate, nsmul_one, Nat.cast_id]

theorem marks_print (plain : scope.compressed = false) (small : scope.data.length < 2 ^ 31)
    (found : scope.data[i]? = some word) (place : scope.offset = BitVec.ofNat 32 i) :
    scope.print.filterMap Line.marked = if scope.skipped word i = false then [i] else [] := by
  obtain ⟨inside, _⟩ := List.getElem?_eq_some_iff.mp found
  rw [print, plain, if_neg Bool.false_ne_true, words_eq small, List.filterMap_flatMap,
    flatMap_place _ 0 found, marked_printPlain]
  · simp [place]
  · intro other member elsewhere
    have bound := List.snd_lt_of_mem_zipIdx member
    rw [marked_printPlain, place, if_neg]
    rintro ⟨same, _⟩
    rw [ofNat_inj (by omega) (by omega)] at same
    omega

theorem marks_writevcd (plain : scope.compressed = false) (small : scope.data.length < 2 ^ 31)
    (found : scope.data[i]? = some word) (place : scope.offset = BitVec.ofNat 32 i) :
    scope.writevcd.filterMap Change.marked = [i] := by
  obtain ⟨inside, _⟩ := List.getElem?_eq_some_iff.mp found
  have single : ∀ other : BitVec 32 × Nat, [scope.vcdPlain other].filterMap Change.marked =
      if BitVec.ofNat 32 other.2 = scope.offset then [other.2] else [] := by
    intro other
    by_cases here : BitVec.ofNat 32 other.2 = scope.offset
    · simp [vcdPlain, Change.marked, here]
    · simp [vcdPlain, Change.marked, here]
  rw [writevcd, plain, if_neg Bool.false_ne_true, words_eq small, List.map_eq_flatMap,
    List.filterMap_flatMap, flatMap_place _ 0 found, single]
  · simp [place]
  · intro other member elsewhere
    have bound := List.snd_lt_of_mem_zipIdx member
    rw [single, place, if_neg]
    rw [ofNat_inj (by omega) (by omega)]
    omega

theorem shown_iff (small : scope.data.length < 2 ^ 31) (found : scope.data[i]? = some word) :
    scope.skipped word i = false ↔
      i = 0 ∨ i + 1 = scope.data.length ∨ scope.data[i - 1]? ≠ some word := by
  obtain ⟨inside, _⟩ := List.getElem?_eq_some_iff.mp found
  have last : (i : Int) < (scope.scoplen - 1).toInt ↔ i + 1 ≠ scope.data.length := by
    have value : (scope.scoplen - 1).toNat = scope.data.length - 1 := by
      have one : (1 : BitVec 32).toNat = 1 := rfl
      rw [scoplen, BitVec.toNat_sub, one, BitVec.toNat_ofNat]
      omega
    rw [BitVec.toInt_eq_toNat_of_lt (by omega), value]
    omega
  have before : scope.data[i - 1]? = some (scope.data.getD (i - 1) 0) := by
    rw [List.getElem?_eq_getElem (by omega)]
    simp [List.getD, List.getElem?_eq_getElem (show i - 1 < scope.data.length by omega)]
  rw [skipped, decide_eq_false_iff_not, last, before, Nat.pos_iff_ne_zero]
  simp only [ne_eq, Option.some.injEq]
  constructor
  · intro shown
    by_contra other
    push Not at other
    exact shown ⟨other.1, other.2.2.symm, other.2.1⟩
  · rintro (first | final | differs) ⟨positive, same, inner⟩
    · exact positive first
    · exact inner final
    · exact differs same.symm

end Plain

/-- `getaddresslen` is the length of the expanded record, where `m_scoplen` is a
positive `int`. `print` and `writevcd` mark the sample of the record that is at
`getaddresslen() - m_holdoff - 1`, both and no other, just when the buffer is a
plain one and `print` shows it: on a compressed one `print` is one sample off. -/
theorem marks_agree_iff {scope : Reader} {i : Nat} {word : BitVec 32}
    (sampled : scope.tokens[i]? = some (.sample word))
    (trigger : scope.position i + scope.holdoff.toNat + 1 = scope.getaddresslen.toNat) :
    (scope.data.length ≠ 2 ^ 31 →
      scope.getaddresslen = BitVec.ofNat 32 (Token.expand 0 scope.tokens).length) ∧
    (Token.expand 0 scope.tokens)[scope.getaddresslen.toNat - scope.holdoff.toNat - 1]? =
      some word ∧
    ((scope.print.filterMap Line.marked = [i] ∧ scope.writevcd.filterMap Change.marked = [i]) ↔
      scope.compressed = false ∧ scope.data.length ≠ 2 ^ 31 ∧
        (i = 0 ∨ i + 1 = scope.data.length ∨ scope.data[i - 1]? ≠ some word)) := by
  have found := data_of_sampled sampled
  have place : scope.getaddresslen.toNat - scope.holdoff.toNat - 1 = scope.position i := by omega
  refine ⟨fun odd => getaddresslen_eq (Nat.lt_of_le_of_ne scope.fits odd),
    place ▸ sample_at_position sampled, ?_⟩
  constructor
  · rintro ⟨print, vcd⟩
    have plain : scope.compressed = false := by
      rw [← Bool.not_eq_true]
      intro compressed
      exact unmarked_compressed compressed trigger (print ▸ List.mem_singleton_self i)
    have large : scope.data.length ≠ 2 ^ 31 := by
      intro large
      rw [writevcd, plain, if_neg Bool.false_ne_true, words_none large] at vcd
      cases vcd
    have small : scope.data.length < 2 ^ 31 := Nat.lt_of_le_of_ne scope.fits large
    obtain ⟨inside, _⟩ := List.getElem?_eq_some_iff.mp found
    rw [position_plain plain (Nat.le_of_lt inside)] at trigger
    rw [marks_print plain small found (offset_eq trigger)] at print
    refine ⟨plain, large, ?_⟩
    by_cases shown : scope.skipped word i = false
    · exact (shown_iff small found).mp shown
    · rw [if_neg shown] at print
      cases print
  · rintro ⟨plain, large, shown⟩
    have small : scope.data.length < 2 ^ 31 := Nat.lt_of_le_of_ne scope.fits large
    obtain ⟨inside, _⟩ := List.getElem?_eq_some_iff.mp found
    rw [position_plain plain (Nat.le_of_lt inside)] at trigger
    refine ⟨?_, marks_writevcd plain small found (offset_eq trigger)⟩
    rw [marks_print plain small found (offset_eq trigger), if_pos ((shown_iff small found).mpr shown)]

/-- Eight words that differ, held off by two. -/
theorem plain_marks_agree :
    let scope : Reader := ⟨false, [1, 2, 3, 4, 5, 6, 7, 8], 2, by decide⟩
    scope.print.filterMap Line.marked = [5] ∧ scope.writevcd.filterMap Change.marked = [5] :=
  (@marks_agree_iff ⟨false, [1, 2, 3, 4, 5, 6, 7, 8], 2, by decide⟩ 5 6 rfl rfl).2.2.mpr
    ⟨rfl, by decide, .inr (.inr (by decide))⟩

/-- The same words in a compressed scope: `print` marks the sample before, `writevcd`
none. -/
theorem compressed_marks_differ :
    let scope : Reader := ⟨true, [1, 2, 3, 4, 5, 6, 7, 8], 2, by decide⟩
    scope.position 5 + scope.holdoff.toNat + 1 = scope.getaddresslen.toNat ∧
      ¬ (scope.print.filterMap Line.marked = [5] ∧
        scope.writevcd.filterMap Change.marked = [5]) ∧
      scope.print.filterMap Line.marked = [4] ∧ scope.writevcd.filterMap Change.marked = [] := by
  decide

end Reader

end ZipVersa.Scope
