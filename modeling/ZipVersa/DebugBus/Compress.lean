import ZipVersa.DebugBus.SixBit
import ZipVersa.Lib.Clocked
import ZipVersa.Lib.History

/-! `wbucompress`: short forms for addresses, then a search through the words
sent since the last address for as long as the output is busy. -/

set_option autoImplicit false

namespace ZipVersa.DebugBus

open Lib

structure Compress where
  awordValid : Bool
  aAddrword : Word
  rWord : Word
  tblAddr : BitVec 10
  tblFilled : Bool
  compressionTbl : BitVec 10 → BitVec 32
  rdAddr : BitVec 10
  cword : BitVec 32
  dmatch : Bool
  maddr : BitVec 10
  dffaddr : BitVec 10
  vaddr : Bool
  addrWithinTable : Bool
  pmatch : Bool
  matched : Bool
  zmatch : Bool
  hmatch : Bool
  adrHlfd : BitVec 3
  adrDbld : BitVec 10
  rCword : Word
  stb : Bool

/-- A codeword from its first six bits and the others. -/
def codeword (first : Six) (rest : BitVec 30) : Word := first ++ rest

/-- The bits that tell data words (`7`) and addresses (`1`) from the rest. -/
def kind (word : Word) : BitVec 3 := word.extractLsb' 33 3

/-- `{ r_word[32:31], r_word[29:0] }`. -/
def dataBits (word : Word) : BitVec 32 := word.extractLsb' 31 2 ++ word.extractLsb' 0 30

namespace Compress

/-- The address compression stage. -/
def squeeze (codword : Word) : Word :=
  if codword.extractLsb' 32 4 ≠ 2 then codword
  else if codword.extractLsb' 24 8 ≠ 0 then codword
  else if codword.extractLsb' 18 6 ≠ 0 then
    codeword 0xf (codword.extractLsb' 0 24 ++ (0 : BitVec 6))
  else if codword.extractLsb' 12 6 ≠ 0 then
    codeword 0xe (codword.extractLsb' 0 18 ++ (0 : BitVec 12))
  else if codword.extractLsb' 6 6 ≠ 0 then
    codeword 0xd (codword.extractLsb' 0 12 ++ (0 : BitVec 18))
  else codeword 0xc (codword.extractLsb' 0 6 ++ (0 : BitVec 24))

variable (packit : Compress) (iBusy : Bool)

def tblBusy : Bool := packit.stb && iBusy

def busy : Bool := packit.awordValid && packit.tblBusy iBusy

def clearTable : Bool := packit.stb && !iBusy && kind packit.rCword == 1

def wMatch : Bool := packit.addrWithinTable && packit.dmatch && kind packit.rWord == 7

/-- The word as a reference into the table. -/
def matchedWord : Word :=
  if packit.zmatch then
    codeword ((3 : BitVec 5) ++ packit.rWord.extractLsb' 30 1) (packit.rWord.extractLsb' 0 30)
  else if packit.hmatch then
    codeword ((2 : BitVec 2) ++ packit.adrHlfd ++ packit.rWord.extractLsb' 30 1)
      (packit.rWord.extractLsb' 0 30)
  else
    codeword ((1 : BitVec 2) ++ packit.adrDbld.extractLsb' 6 3 ++ packit.rWord.extractLsb' 30 1)
      (packit.adrDbld.extractLsb' 0 6 ++ packit.rWord.extractLsb' 0 24)

/-- One rising edge, `i_reset` being tied low. -/
def step (iStb : Bool) (iCodword : Word) : Compress where
  aAddrword :=
    if !packit.awordValid || !packit.tblBusy iBusy then squeeze iCodword else packit.aAddrword
  awordValid :=
    if iStb then true else if !packit.tblBusy iBusy then false else packit.awordValid
  rWord := if !packit.tblBusy iBusy then packit.aAddrword else packit.rWord
  tblAddr :=
    if packit.clearTable iBusy then 0
    else if packit.stb && !packit.tblBusy iBusy && kind packit.rCword == 7 then packit.tblAddr + 1
    else packit.tblAddr
  tblFilled :=
    if packit.clearTable iBusy then false
    else if packit.tblAddr == 0x3ff then true
    else packit.tblFilled
  compressionTbl := Function.update packit.compressionTbl packit.tblAddr (dataBits packit.rWord)
  rdAddr :=
    if packit.clearTable iBusy then -1
    else if !packit.stb || !iBusy then
      packit.tblAddr - (if packit.stb && kind packit.rCword == 7 then 0 else 1)
    else packit.rdAddr - 1
  cword := packit.compressionTbl packit.rdAddr
  dmatch :=
    if !packit.stb || !iBusy then false
    else packit.cword == dataBits packit.rWord && packit.pmatch && !packit.matched && packit.vaddr
  maddr := packit.dffaddr
  dffaddr :=
    if packit.clearTable iBusy || !packit.stb || !iBusy then 1 else packit.dffaddr + 1
  vaddr :=
    if !iBusy then false
    else packit.tblFilled || decide (packit.rdAddr < packit.tblAddr)
  addrWithinTable :=
    if !iBusy then true
    else if packit.addrWithinTable then decide (packit.dffaddr ≤ 521)
    else packit.addrWithinTable
  pmatch := packit.tblBusy iBusy
  matched :=
    if !iBusy || !packit.stb then false
    else if !packit.matched then packit.wMatch
    else packit.matched
  zmatch :=
    if !packit.stb || !iBusy || !packit.pmatch then false else packit.dffaddr == 2
  hmatch :=
    if !packit.stb || !iBusy || !packit.pmatch then false else decide (packit.dffaddr < 11)
  adrHlfd :=
    if !packit.matched && !packit.wMatch then packit.maddr.extractLsb' 0 3 - 2 else packit.adrHlfd
  adrDbld :=
    if !packit.matched && !packit.wMatch then packit.maddr - 10 else packit.adrDbld
  rCword :=
    if !packit.tblBusy iBusy then packit.aAddrword
    else if !packit.matched && packit.wMatch then packit.matchedWord
    else packit.rCword
  stb := if packit.awordValid then true else if !iBusy then false else packit.stb

/-- The word handed over to `wbudeword` at a clock. -/
def sends : List Word := if packit.stb && !iBusy then [packit.rCword] else []

/-- The word taken in at a clock. -/
def takes (iStb : Bool) (iCodword : Word) : List Word :=
  if iStb && !packit.busy iBusy then [iCodword] else []

/-- The words under way. -/
def pending : List Word :=
  (if packit.stb then [packit.rWord] else []) ++
    (if packit.awordValid then [packit.aAddrword] else [])

end Compress

/-! ### What the codewords stand for -/

/-- A word as a reference to the entry `distance` back. -/
def reference (distance : Nat) (word : Word) : Word :=
  if distance = 1 then
    codeword ((3 : BitVec 5) ++ word.extractLsb' 30 1) (word.extractLsb' 0 30)
  else if distance < 10 then
    codeword ((2 : BitVec 2) ++ ((BitVec.ofNat 10 distance).extractLsb' 0 3 - 2) ++
      word.extractLsb' 30 1) (word.extractLsb' 0 30)
  else
    codeword ((1 : BitVec 2) ++ (BitVec.ofNat 10 distance - 10).extractLsb' 6 3 ++
        word.extractLsb' 30 1)
      ((BitVec.ofNat 10 distance - 10).extractLsb' 0 6 ++ word.extractLsb' 0 24)

/-- The codeword `code` may stand for `word` when `past` is what was sent in
full since the last address; `none` before the first address. -/
inductive Emits : Option (List (BitVec 32)) → Word → Word → Option (List (BitVec 32)) → Prop where
  | address {past : Option (List (BitVec 32))} {word : Word} :
      kind word = 1 → Emits past word word (some [])
  | other {past : Option (List (BitVec 32))} {word : Word} :
      kind word ≠ 1 → kind word ≠ 7 → Emits past word word past
  | raw {past : List (BitVec 32)} {word : Word} :
      kind word = 7 → Emits (some past) word word (some (dataBits word :: past))
  | refer {past : List (BitVec 32)} {word : Word} {distance : Nat} :
      kind word = 7 → 0 < distance → distance ≤ 521 →
      past[distance - 1]? = some (dataBits word) →
      Emits (some past) word (reference distance word) (some past)
  | unknown {word code : Word} : kind word = 7 → Emits none word code none

/-- A word may always be sent in full. -/
theorem Emits.plain (past : Option (List (BitVec 32))) (word : Word) :
    ∃ later, Emits past word word later := by
  by_cases address : kind word = 1
  · exact ⟨some [], .address address⟩
  by_cases data : kind word = 7
  · cases past with
    | none => exact ⟨none, .unknown data⟩
    | some past => exact ⟨_, .raw data⟩
  · exact ⟨past, .other address data⟩

/-- The codewords `codes` may stand for `words`, one for each. -/
inductive EmitsAll : Option (List (BitVec 32)) → List Word → List Word →
    Option (List (BitVec 32)) → Prop where
  | nil {past : Option (List (BitVec 32))} : EmitsAll past [] [] past
  | cons {past next last : Option (List (BitVec 32))} {word code : Word}
      {words codes : List Word} :
      Emits past word code next → EmitsAll next words codes last →
      EmitsAll past (word :: words) (code :: codes) last

theorem EmitsAll.snoc {past next last : Option (List (BitVec 32))} {words codes : List Word}
    {word code : Word} (emitsAll : EmitsAll past words codes next)
    (emits : Emits next word code last) :
    EmitsAll past (words ++ [word]) (codes ++ [code]) last := by
  induction emitsAll with
  | nil => exact .cons emits .nil
  | cons first _ ih => exact .cons first (ih emits)

theorem codeword_getLsbD (first : Six) (rest : BitVec 30) (i : Nat) :
    (codeword first rest).getLsbD i = if i < 30 then rest.getLsbD i else first.getLsbD (i - 30) := by
  unfold codeword
  erw [BitVec.getLsbD_append]

@[simp] theorem kind_codeword (first : Six) (rest : BitVec 30) :
    kind (codeword first rest) = first.extractLsb' 3 3 := by
  unfold kind
  ext i inside
  rw [BitVec.getElem_extractLsb', BitVec.getElem_extractLsb', codeword_getLsbD, if_neg (by omega)]
  congr 1
  omega

/-- A reference is neither an address nor a word in full. -/
theorem kind_reference (distance : Nat) (word : Word) :
    kind (reference distance word) ≠ 1 ∧ kind (reference distance word) ≠ 7 := by
  unfold reference
  generalize word.extractLsb' 30 1 = inc
  split
  · rw [kind_codeword]
    revert inc
    decide
  split
  · rw [kind_codeword]
    generalize (BitVec.ofNat 10 distance).extractLsb' 0 3 - 2 = near
    revert near inc
    decide
  · rw [kind_codeword]
    generalize (BitVec.ofNat 10 distance - 10).extractLsb' 6 3 = far
    revert far inc
    decide

namespace Compress

/-- The table remembers `past`. -/
structure Table (packit : Compress) (past : List (BitVec 32)) : Prop where
  tblAddr : packit.tblAddr = BitVec.ofNat 10 past.length
  recalls : Recalls packit.compressionTbl packit.tblAddr past
  filled : packit.tblFilled = true → 1023 ≤ past.length
  unfilled : packit.tblFilled = false → past.length ≤ 1023

/-- The search `clocks` after it began, up to three entries under way in its
pipeline. -/
structure Search (packit : Compress) (past : List (BitVec 32)) (clocks : Nat) : Prop where
  rdAddr : packit.rdAddr = packit.tblAddr - BitVec.ofNat 10 (clocks + 1)
  dffaddr : packit.dffaddr = BitVec.ofNat 10 (clocks + 1)
  within : packit.addrWithinTable = true → clocks ≤ 521
  pmatch : packit.pmatch = decide (0 < clocks)
  maddr : 0 < clocks → packit.maddr = BitVec.ofNat 10 clocks
  entry : 0 < clocks → clocks < 1024 → packit.vaddr = true →
    past[clocks - 1]? = some packit.cword
  found : clocks < 1024 → packit.dmatch = true →
    1 < clocks ∧ past[clocks - 2]? = some (dataBits packit.rWord) ∧
      packit.zmatch = decide (clocks = 2) ∧ packit.hmatch = decide (clocks < 11)
  adr : 1 < clocks → packit.matched = false →
    packit.adrHlfd = (BitVec.ofNat 10 (clocks - 1)).extractLsb' 0 3 - 2 ∧
      packit.adrDbld = BitVec.ofNat 10 (clocks - 1) - 10

structure Follows (packit : Compress) (past : Option (List (BitVec 32))) : Prop where
  table : ∀ known, past = some known → packit.Table known
  search : packit.stb = true → ∀ known, past = some known → ∃ clocks, packit.Search known clocks
  coded : packit.stb = true → ∃ later, Emits past packit.rWord packit.rCword later

variable {packit : Compress} {past : List (BitVec 32)}

theorem Table.present (table : packit.Table past) {distance : Nat} (positive : 0 < distance)
    (inside : distance < 1024)
    (valid : packit.tblFilled = true ∨ packit.tblAddr - BitVec.ofNat 10 distance < packit.tblAddr) :
    distance ≤ past.length := by
  cases filled : packit.tblFilled with
  | true =>
      have := table.filled filled
      omega
  | false =>
      have short := table.unfilled filled
      have below := valid.resolve_left (by rw [filled]; exact Bool.false_ne_true)
      rw [table.tblAddr, BitVec.lt_def, BitVec.toNat_sub, BitVec.toNat_ofNat, BitVec.toNat_ofNat]
        at below
      omega

variable {iBusy iStb : Bool} {iCodword : Word}

/-- Emptied by an address. -/
theorem Table.cleared (clear : packit.clearTable iBusy = true) :
    (packit.step iBusy iStb iCodword).Table [] where
  tblAddr := by simp [step, clear]
  recalls := Recalls.nil
  filled := by simp [step, clear]
  unfilled := by simp

/-- `tbl_filled` rises once the last place is reached. -/
theorem Table.step_filled (table : packit.Table past) (iStb : Bool) (iCodword : Word)
    (kept : packit.clearTable iBusy = false) :
    ((packit.step iBusy iStb iCodword).tblFilled = true → 1023 ≤ past.length) ∧
      ((packit.step iBusy iStb iCodword).tblFilled = false → past.length < 1023) := by
  have edge : packit.tblAddr = 0x3ff → 1023 ≤ past.length := by
    intro last
    rw [table.tblAddr, ← BitVec.toNat_inj, BitVec.toNat_ofNat] at last
    have : past.length % 2 ^ 10 = 1023 := last
    omega
  simp only [step, kept, Bool.false_eq_true, if_false, beq_iff_eq]
  split
  · next last => exact ⟨fun _ => edge last, fun impossible => nomatch impossible⟩
  · next before =>
      refine ⟨table.filled, fun unfilled => Nat.lt_of_le_of_ne (table.unfilled unfilled) ?_⟩
      intro last
      exact before (by rw [table.tblAddr, last]; rfl)

/-- One entry longer. -/
theorem Table.pushed (table : packit.Table past) (accepted : packit.stb = true)
    (full : kind packit.rCword = 7) :
    (packit.step false iStb iCodword).Table (dataBits packit.rWord :: past) := by
  have kept : packit.clearTable false = false := by simp [clearTable, full]
  have next : (packit.step false iStb iCodword).tblAddr = packit.tblAddr + 1 := by
    simp [step, kept, accepted, full, tblBusy]
  obtain ⟨filled, unfilled⟩ := table.step_filled iStb iCodword kept
  refine ⟨?_, ?_, ?_, ?_⟩
  · rw [next, table.tblAddr, List.length_cons, BitVec.ofNat_add]
    rfl
  · rw [next]
    exact table.recalls.push _
  · intro yes
    exact Nat.le_succ_of_le (filled yes)
  · intro no
    exact unfilled no

theorem Table.kept (table : packit.Table past) (same : packit.clearTable iBusy = false)
    (still : packit.stb = true → packit.tblBusy iBusy = false → kind packit.rCword ≠ 7) :
    (packit.step iBusy iStb iCodword).Table past := by
  have next : (packit.step iBusy iStb iCodword).tblAddr = packit.tblAddr := by
    simpa [step, same] using still
  obtain ⟨filled, unfilled⟩ := table.step_filled iStb iCodword same
  refine ⟨by rw [next, table.tblAddr], ?_, filled, fun no => Nat.le_of_lt (unfilled no)⟩
  rw [next]
  exact table.recalls.scratch _

/-! ### The search -/

/-- It starts over with every word. -/
theorem Search.start (free : packit.tblBusy iBusy = false) :
    (packit.step iBusy iStb iCodword).Search past 0 := by
  have off : (!packit.stb || !iBusy) = true := by
    rw [← Bool.not_and, ← tblBusy, free, Bool.not_false]
  exact {
    rdAddr := by
      simp only [step, off, free, if_true, Bool.not_false, Bool.and_true, Nat.zero_add]
      split
      · rfl
      · split <;> grind
    dffaddr := by simp [step, off, Bool.or_assoc]
    within := fun _ => Nat.zero_le _
    pmatch := by simp [step, free]
    maddr := nofun
    entry := nofun
    found := by simp [step, off]
    adr := nofun }

/-- The entry that is read at a clock of the search. -/
theorem Search.step_entry {clocks : Nat} (search : packit.Search past clocks)
    (table : packit.Table past) (inside : clocks + 1 < 1024)
    (valid : (packit.step true iStb iCodword).vaddr = true) :
    past[clocks]? = some (packit.step true iStb iCodword).cword := by
  have short : clocks + 1 ≤ past.length := by
    refine table.present (Nat.succ_pos _) inside ?_
    rw [← search.rdAddr]
    simpa [step] using valid
  have entry := table.recalls clocks past[clocks] inside (List.getElem?_eq_getElem short)
  rw [List.getElem?_eq_getElem short, ← entry, ← search.rdAddr]
  rfl

/-- What the comparison at a clock of the search has found. -/
theorem Search.step_found {clocks : Nat} (search : packit.Search past clocks)
    (offered : packit.stb = true) (inside : clocks + 1 < 1024)
    (hit : (packit.step true iStb iCodword).dmatch = true) :
    1 < clocks + 1 ∧ past[clocks - 1]? = some (dataBits packit.rWord) ∧
      (packit.step true iStb iCodword).zmatch = decide (clocks + 1 = 2) ∧
      (packit.step true iStb iCodword).hmatch = decide (clocks + 1 < 11) := by
  simp only [step, offered, Bool.not_true, Bool.or_self, Bool.false_eq_true, if_false,
    Bool.and_eq_true, beq_iff_eq] at hit
  obtain ⟨⟨⟨same, possible⟩, _⟩, valid⟩ := hit
  have positive : 0 < clocks := by simpa [search.pmatch] using possible
  have distance : (BitVec.ofNat 10 (clocks + 1)).toNat = clocks + 1 := by
    rw [BitVec.toNat_ofNat, Nat.mod_eq_of_lt inside]
  refine ⟨by omega, ?_, ?_, ?_⟩
  · rw [search.entry positive (by omega) valid, same]
  · simp only [step, offered, possible, search.dffaddr]
    rw [Bool.eq_iff_iff, decide_eq_true_iff]
    simp [← BitVec.toNat_inj, distance]
  · simp [step, offered, possible, search.dffaddr, BitVec.lt_def, distance]

theorem Search.next {clocks : Nat} (search : packit.Search past clocks)
    (table : packit.Table past) (offered : packit.stb = true) :
    (packit.step true iStb iCodword).Search past (clocks + 1) := by
  have same : packit.clearTable true = false := by simp [clearTable]
  have busy : packit.tblBusy true = true := by simp [tblBusy, offered]
  have tblAddr : (packit.step true iStb iCodword).tblAddr = packit.tblAddr := by
    simp [step, same, busy]
  have rWord : (packit.step true iStb iCodword).rWord = packit.rWord := by simp [step, busy]
  exact {
    rdAddr := by
      rw [tblAddr, BitVec.ofNat_add (clocks + 1)]
      simp only [step, same, offered, search.rdAddr, Bool.not_true, Bool.or_self,
        Bool.false_eq_true, if_false]
      grind
    dffaddr := by
      rw [BitVec.ofNat_add (clocks + 1)]
      simp [step, same, offered, search.dffaddr]
    within := by
      intro inside
      simp only [step, Bool.not_true, Bool.false_eq_true, if_false] at inside
      split at inside
      · next before =>
          have := search.within before
          simp [search.dffaddr, BitVec.le_def] at inside
          omega
      · next after => exact absurd inside after
    pmatch := by simp [step, busy]
    maddr := fun _ => search.dffaddr
    entry := fun _ inside valid => search.step_entry table inside valid
    found := by
      intro inside hit
      rw [rWord]
      exact search.step_found offered inside hit
    adr := by
      intro later unmatched
      have looking : (!packit.matched && !packit.wMatch) = true := by
        cases matched : packit.matched <;> simp_all [step]
      simp [step, looking, search.maddr (by omega)] }

/-- A match is a reference to an entry of the table. -/
theorem Search.matched {clocks : Nat} (search : packit.Search past clocks)
    (looking : packit.matched = false) (hit : packit.wMatch = true) :
    Emits (some past) packit.rWord packit.matchedWord (some past) := by
  simp only [wMatch, Bool.and_eq_true, beq_iff_eq] at hit
  obtain ⟨⟨inside, matches_⟩, data⟩ := hit
  have near := search.within inside
  obtain ⟨later, entry, zmatch, hmatch⟩ := search.found (by omega) matches_
  obtain ⟨hlfd, dbld⟩ := search.adr later looking
  have form : packit.matchedWord = reference (clocks - 1) packit.rWord := by
    have one : clocks = 2 ↔ clocks - 1 = 1 := by omega
    have nine : clocks < 11 ↔ clocks - 1 < 10 := by omega
    simp only [matchedWord, reference, zmatch, hmatch, hlfd, dbld, decide_eq_true_eq, one, nine]
  rw [form]
  exact .refer data (by omega) (by omega) (by rwa [Nat.sub_sub])

variable {known : Option (List (BitVec 32))}

/-- While the output is busy the word at hand is looked for. -/
theorem Follows.searching (follows : packit.Follows known) (offered : packit.stb = true) :
    (packit.step true iStb iCodword).Follows known := by
  have same : packit.clearTable true = false := by simp [clearTable]
  have busy : packit.tblBusy true = true := by simp [tblBusy, offered]
  refine ⟨?_, ?_, ?_⟩
  · intro past remembered
    exact (follows.table past remembered).kept same (by simp [busy])
  · intro _ past remembered
    obtain ⟨clocks, search⟩ := follows.search offered past remembered
    exact ⟨clocks + 1, search.next (follows.table past remembered) offered⟩
  · intro _
    have rWord : (packit.step true iStb iCodword).rWord = packit.rWord := by simp [step, busy]
    rw [rWord]
    by_cases hit : packit.matched = false ∧ packit.wMatch = true
    · have rCword : (packit.step true iStb iCodword).rCword = packit.matchedWord := by
        simp [step, busy, hit]
      rw [rCword]
      cases known with
      | none =>
          have data : kind packit.rWord = 7 := by
            have := hit.2
            simp only [wMatch, Bool.and_eq_true, beq_iff_eq] at this
            exact this.2
          exact ⟨none, .unknown data⟩
      | some past =>
          obtain ⟨clocks, search⟩ := follows.search offered past rfl
          exact ⟨_, search.matched hit.1 hit.2⟩
    · have rCword : (packit.step true iStb iCodword).rCword = packit.rCword := by
        simp only [step, busy, Bool.not_true, Bool.false_eq_true, if_false, Bool.and_eq_true,
          Bool.not_eq_true', if_neg hit]
      rw [rCword]
      exact follows.coded offered

/-- A new word, or none, comes to the table when the output is free. -/
theorem Follows.loaded (free : packit.tblBusy iBusy = false)
    (table : ∀ past, known = some past → (packit.step iBusy iStb iCodword).Table past) :
    (packit.step iBusy iStb iCodword).Follows known := by
  refine ⟨table, fun _ past _ => ⟨0, Search.start free⟩, fun _ => ?_⟩
  have both : (packit.step iBusy iStb iCodword).rCword = (packit.step iBusy iStb iCodword).rWord := by
    simp [step, free]
  rw [both]
  exact Emits.plain known _

/-- The table after a codeword has been sent. -/
theorem Emits.table {later : Option (List (BitVec 32))}
    (emits : Emits known packit.rWord packit.rCword later) (sent : packit.stb = true)
    (table : ∀ past, known = some past → packit.Table past) :
    ∀ past, later = some past → (packit.step false iStb iCodword).Table past := by
  have clears : packit.clearTable false = (kind packit.rCword == 1) := by simp [clearTable, sent]
  generalize code : packit.rCword = out at emits
  cases emits with
  | address address =>
      rintro past ⟨⟩
      exact .cleared (by rw [clears, code, address]; rfl)
  | other notAddress notData =>
      intro past remembered
      refine (table past remembered).kept ?_ ?_
      · rw [clears, code, beq_eq_false_iff_ne]
        exact notAddress
      · rw [code]
        exact fun _ _ => notData
  | raw data =>
      rintro past ⟨⟩
      exact (table _ rfl).pushed sent (by rw [code]; exact data)
  | refer data _ _ _ =>
      rintro past ⟨⟩
      refine (table _ rfl).kept ?_ ?_
      · rw [clears, code, beq_eq_false_iff_ne]
        exact (kind_reference _ _).1
      · rw [code]
        exact fun _ _ => (kind_reference _ _).2
  | unknown _ => nofun

/-! ### Runs -/

/-- `taken` has come in so far and `sent` has gone out. -/
def Carries (packit : Compress) (taken sent : List Word) : Prop :=
  ∃ handed known, taken.map squeeze = handed ++ packit.pending ∧ EmitsAll .none handed sent known ∧
    packit.Follows known

variable {taken sent : List Word}

theorem Carries.start (empty : packit.stb = false) (none : packit.awordValid = false) :
    packit.Carries [] [] := by
  refine ⟨[], .none, by simp [pending, empty, none], .nil, ?_⟩
  exact ⟨nofun, by simp [empty], by simp [empty]⟩

theorem pending_searching (offered : packit.stb = true) (iStb : Bool) (iCodword : Word) :
    (packit.step true iStb iCodword).pending =
      packit.pending ++ (packit.takes true iStb iCodword).map squeeze := by
  cases valid : packit.awordValid <;> cases iStb <;>
    simp [pending, takes, busy, tblBusy, step, offered, valid]

theorem pending_loaded (free : packit.tblBusy iBusy = false) (iStb : Bool) (iCodword : Word) :
    packit.pending ++ (packit.takes iBusy iStb iCodword).map squeeze =
      (if packit.stb then [packit.rWord] else []) ++
        (packit.step iBusy iStb iCodword).pending := by
  have stays : (if iBusy = false then false else packit.stb) = false := by
    rw [tblBusy] at free
    cases iBusy <;> simp_all
  cases valid : packit.awordValid <;> cases iStb <;>
    simp [pending, takes, busy, free, step, valid, stays]

theorem Carries.step (carries : packit.Carries taken sent) (iBusy iStb : Bool) (iCodword : Word) :
    (packit.step iBusy iStb iCodword).Carries (taken ++ packit.takes iBusy iStb iCodword)
      (sent ++ packit.sends iBusy) := by
  obtain ⟨handed, known, split, codes, follows⟩ := carries
  cases offered : packit.stb with
  | false =>
      have free : packit.tblBusy iBusy = false := by simp [tblBusy, offered]
      refine ⟨handed, known, ?_, ?_, Follows.loaded free ?_⟩
      · rw [List.map_append, split, List.append_assoc, pending_loaded free, offered]
        simp
      · simpa [sends, offered] using codes
      · intro past remembered
        exact (follows.table past remembered).kept (by simp [clearTable, offered])
          (by simp [offered])
  | true =>
      cases iBusy with
      | true =>
          refine ⟨handed, known, ?_, ?_, follows.searching offered⟩
          · rw [List.map_append, split, List.append_assoc, pending_searching offered]
          · simpa [sends] using codes
      | false =>
          have free : packit.tblBusy false = false := by simp [tblBusy]
          obtain ⟨later, emits⟩ := follows.coded offered
          refine ⟨handed ++ [packit.rWord], later, ?_, ?_,
            Follows.loaded free (Emits.table emits offered follows.table)⟩
          · rw [List.map_append, split, List.append_assoc, pending_loaded free, offered,
              List.append_assoc]
            rfl
          · rw [sends, offered]
            exact codes.snoc emits

end Compress

end ZipVersa.DebugBus
