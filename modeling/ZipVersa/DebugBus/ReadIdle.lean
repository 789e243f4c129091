import ZipVersa.DebugBus.ReadWord

/-! What `lclreadcode` makes of a mixed batch, and `TTYBUS::readidle`. -/

set_option autoImplicit false

namespace ZipVersa.DebugBus

open Lib

/-- `chardec` knows the character. -/
def isCode (char : Byte) : Bool := (chardec char).isSome

theorem isCode_iff {char : Byte} : isCode char = true ↔ chardec char ≠ none :=
  Option.isSome_iff_ne_none

theorem not_isCode {char : Byte} : isCode char = false ↔ chardec char = none := by
  rw [isCode, Option.isSome_eq_false_iff, Option.isNone_iff_eq_none]

namespace Host

/-! ### Compaction in place -/

/-- `chars` stand in the buffer from `start` on. -/
def Lies (buf : Nat → Byte) (start : Nat) (chars : List Byte) : Prop :=
  ∀ (i : Nat) (char : Byte), chars[i]? = some char → buf (start + i) = char

theorem Lies.store (buf : Nat → Byte) (start : Nat) (chars : List Byte) :
    Lies (store buf start chars) start chars :=
  fun _ _ found => store_get buf start found

theorem Lies.first {buf : Nat → Byte} {start : Nat} {char : Byte} {chars : List Byte}
    (lies : Lies buf start (char :: chars)) : buf start = char :=
  lies 0 char rfl

theorem Lies.rest {buf : Nat → Byte} {start : Nat} {char : Byte} {chars : List Byte}
    (lies : Lies buf start (char :: chars)) : Lies buf (start + 1) chars := by
  intro i found same
  rw [← lies (i + 1) found same, Nat.add_assoc, Nat.add_comm 1]

/-- Nothing below the characters is written to. -/
theorem Lies.update {buf : Nat → Byte} {start place : Nat} {chars : List Byte}
    (lies : Lies buf start chars) (below : place < start) (char : Byte) :
    Lies (Function.update buf place char) start chars := by
  intro i found same
  rw [Function.update_of_ne (by omega)]
  exact lies i found same

theorem compact_below {buf : Nat → Byte} {sp dp count i : Nat} (below : i < sp) :
    (compact buf sp dp count).1 i = buf i := by
  induction count generalizing buf sp dp with
  | zero => rfl
  | succ count ih =>
      rw [compact]
      split
      · exact ih (by omega)
      · dsimp only
        rw [ih (by omega), Function.update_of_ne (by omega)]

/-- Wherever `dp` stands, `lclreadcode` returns the number of codes. -/
theorem compact_count {buf : Nat → Byte} {sp : Nat} {chars : List Byte} (dp : Nat)
    (lies : Lies buf sp chars) :
    (compact buf sp dp chars.length).2 = chars.countP isCode := by
  induction chars generalizing buf sp dp with
  | nil => rfl
  | cons char chars ih =>
      rw [List.length_cons, compact, lies.first]
      split
      · next invalid =>
          rw [List.countP_cons_of_neg (by rw [not_isCode.mpr invalid]; exact Bool.false_ne_true)]
          exact ih dp lies.rest
      · next valid =>
          rw [List.countP_cons_of_pos (isCode_iff.mpr valid)]
          exact congrArg (· + 1) (ih (dp + 1) (lies.rest.update (Nat.lt_succ_self sp) _))

/-- The characters left in the buffer. -/
def kept (result : (Nat → Byte) × Nat) (start : Nat) : List Byte :=
  (List.range result.2).map fun i => result.1 (start + i)

/-- No code comes after a character that is none. -/
def CodesFirst (chars : List Byte) : Prop :=
  chars.Pairwise fun before after => isCode after = true → isCode before = true

theorem codesFirst_code {char : Byte} {chars : List Byte} (valid : isCode char = true) :
    CodesFirst (char :: chars) ↔ CodesFirst chars := by
  rw [CodesFirst, List.pairwise_cons]
  exact and_iff_right fun _ _ _ => valid

theorem codesFirst_other {char : Byte} {chars : List Byte} (invalid : isCode char = false) :
    CodesFirst (char :: chars) ↔ ∀ after ∈ chars, isCode after = false := by
  rw [CodesFirst, List.pairwise_cons]
  constructor
  · rintro ⟨none, _⟩ after later
    rw [← Bool.not_eq_true]
    intro valid
    exact absurd (none after later valid) (by rw [invalid]; nofun)
  · intro none
    refine ⟨fun after later valid => absurd valid (by rw [none after later]; nofun), ?_⟩
    refine List.pairwise_of_forall_mem_list fun _ _ after later valid => ?_
    exact absurd valid (by rw [none after later]; nofun)

/-- One code at the head, which stays where it is. -/
theorem kept_code {buf : Nat → Byte} {start : Nat} {char : Byte} {chars : List Byte}
    (lies : Lies buf start (char :: chars)) (valid : isCode char = true) :
    kept (compact buf start start (chars.length + 1)) start =
      char :: kept (compact buf (start + 1) (start + 1) chars.length) (start + 1) := by
  rw [compact, lies.first, if_neg (isCode_iff.mp valid), ← lies.first, Function.update_eq_self]
  simp only [kept, List.range_succ_eq_map, List.map_cons, List.map_map, Nat.add_zero,
    compact_below (Nat.lt_succ_self start), List.cons.injEq, true_and]
  refine List.map_congr_left fun i _ => ?_
  rw [Function.comp_apply, Nat.succ_eq_add_one, Nat.add_assoc, Nat.add_comm 1]

/-- Any other character stays in front of the codes that come after it. -/
theorem kept_other {buf : Nat → Byte} {start : Nat} {char : Byte} {chars : List Byte}
    (lies : Lies buf start (char :: chars)) (invalid : isCode char = false)
    (more : ∃ after ∈ chars, isCode after = true) :
    char ∈ kept (compact buf start start (chars.length + 1)) start := by
  rw [compact, lies.first, if_pos (not_isCode.mp invalid)]
  refine List.mem_map.mpr ⟨0, ?_, ?_⟩
  · rw [List.mem_range, compact_count start lies.rest]
    exact List.countP_pos_iff.mpr more
  · exact (compact_below (Nat.lt_add_one start)).trans lies.first

theorem kept_iff {buf : Nat → Byte} {start : Nat} {chars : List Byte}
    (lies : Lies buf start chars) :
    kept (compact buf start start chars.length) start = chars.filter isCode ↔
      CodesFirst chars := by
  induction chars generalizing start with
  | nil => exact iff_of_true rfl List.Pairwise.nil
  | cons char chars ih =>
      cases valid : isCode char with
      | true =>
          rw [codesFirst_code valid, List.filter_cons_of_pos valid, List.length_cons,
            kept_code lies valid, List.cons.injEq, ← ih lies.rest]
          exact and_iff_right rfl
      | false =>
          rw [codesFirst_other valid, List.filter_cons_of_neg (by rw [valid]; nofun)]
          by_cases more : ∃ after ∈ chars, isCode after = true
          · refine iff_of_false (fun same => ?_) (fun none => ?_)
            · have stays := kept_other lies valid more
              rw [List.length_cons] at same
              rw [same] at stays
              exact absurd (List.mem_filter.mp stays).2 (by rw [valid]; nofun)
            · obtain ⟨after, later, code⟩ := more
              exact absurd code (by rw [none after later]; nofun)
          · have none : ∀ after ∈ chars, isCode after = false := by
              intro after later
              rw [← Bool.not_eq_true]
              exact fun code => more ⟨after, later, code⟩
            refine iff_of_true ?_ none
            have empty : chars.countP isCode = 0 := by
              rw [List.countP_eq_zero]
              exact fun after later => by rw [none after later]; nofun
            rw [List.length_cons, compact, lies.first, if_pos (not_isCode.mp valid), kept,
              compact_count start lies.rest, empty]
            rw [List.countP_eq_length_filter, List.length_eq_zero_iff] at empty
            rw [empty]
            rfl

/-- The buffer of `lclreadcode` holds the codes it has read, in order, just when
none of them came after another character: the two pointers copy the wrong way. -/
theorem lclreadcode_keeps_iff (host : Host) (start len : Nat) :
    kept ((host.lclreadcode start len).1.buf, (host.lclreadcode start len).2) start =
        (Port.read len host.port).1.filter isCode ↔
      CodesFirst (Port.read len host.port).1 :=
  kept_iff (Lies.store host.buf start (Port.read len host.port).1)

/-- A newline in front of a code. -/
theorem newline_kept :
    let host : Host := ⟨TtyBus.fresh, fun _ => 0, [[newline, charenc 7]]⟩
    kept ((host.lclreadcode 0 2).1.buf, (host.lclreadcode 0 2).2) 0 ≠
      (Port.read 2 host.port).1.filter isCode := by
  decide

/-! ### `readidle` -/

/-- `lclreadcode(&m_buf[0], 1)`, `none` when `m_dev->read` has nothing to give and
blocks or throws. -/
def fetch (host : Host) : Option (Host × Nat) :=
  if (Port.read 1 host.port).1 = [] then none else some (host.lclreadcode 0 1)

theorem fetch_eq {host next : Host} {nr : Nat} (found : host.fetch = some (next, nr)) :
    (Port.read 1 host.port).1 ≠ [] ∧ next = (host.lclreadcode 0 1).1 ∧
      nr = (host.lclreadcode 0 1).2 := by
  rw [fetch] at found
  split at found
  · cases found
  · next given =>
      have same := Option.some.inj found
      exact ⟨given, congrArg Prod.fst same.symm, congrArg Prod.snd same.symm⟩

theorem size_fetch {host next : Host} {nr : Nat} (found : host.fetch = some (next, nr)) :
    next.port.size < host.port.size := by
  obtain ⟨given, rfl, _⟩ := fetch_eq found
  refine size_read (fun empty => given ?_) Nat.zero_lt_one
  rw [empty]
  rfl

/-- How a call of `readidle` ends. -/
inductive Ending where
  | returned (host : Host)
  | busErr (host : Host)
  | waiting

/-- The first characters in `m_buf`. -/
def front (host : Host) (count : Nat) : List Byte := (List.range count).map host.buf

/-- The characters of a codeword with data. -/
def dataLength (sixbits : Six) : Nat :=
  if sixbits &&& 0x3e = 0x06 then 1
  else if sixbits &&& 0x30 = 0x10 then 2
  else if sixbits &&& 0x30 = 0x20 then 1
  else if sixbits &&& 0x38 = 0x38 then 6
  else 1

/-- The data that was not expected is decoded as `readword` does it, and ignored. -/
def readOff (host : Host) (sixbits : Six) : List Byte × Ending :=
  match host.decodeWord 0 sixbits with
  | .word _ last => (last.front (dataLength sixbits), .returned last)
  | .busErr last => (host.front 1, .busErr last)
  | .waiting => (host.front 1, .waiting)

/-- The loop of `readidle`, with the characters it has acted on. It fetches one
character in the condition and the next one in the body. -/
def idleLoop (host : Host) : List Byte × Ending :=
  if host.port = [] then ([], .returned host)
  else
    match _first : host.fetch with
    | none => ([], .waiting)
    | some (between, nr) =>
        if nr = 0 then ([], .returned between)
        else
          match _second : between.fetch with
          | none => ([], .waiting)
          | some (next, _) =>
              match chardec (next.buf 0) with
              | none => next.idleLoop
              | some sixbits =>
                  if sixbits < 6 then
                    if sixbits = 3 ∨ sixbits = 5 then
                      (next.front 1, .busErr { next with bus := { next.bus with busErr := true } })
                    else if sixbits = 4 then
                      let later := idleLoop
                        { next with bus := { next.bus with interruptFlag := true } }
                      (next.front 1 ++ later.1, later.2)
                    else (next.front 1 ++ next.idleLoop.1, next.idleLoop.2)
                  else if sixbits &&& 0x3c = 0x08 then
                    match _more : next.await 1 6 with
                    | none => (next.front 1, .waiting)
                    | some last => (last.front 6 ++ last.idleLoop.1, last.idleLoop.2)
                  else if sixbits &&& 0x3c = 0x0c then
                    match _more : next.await 1 ((sixbits &&& 0x03).toNat + 2) with
                    | none => (next.front 1, .waiting)
                    | some last =>
                        (last.front ((sixbits &&& 0x03).toNat + 2) ++ last.idleLoop.1,
                          last.idleLoop.2)
                  else next.readOff sixbits
termination_by host.port.size
decreasing_by
  all_goals have shorter := Nat.lt_trans (size_fetch _second) (size_fetch _first)
  · exact shorter
  · exact shorter
  · exact shorter
  · exact Nat.lt_trans (size_await (by decide) _more) shorter
  · exact Nat.lt_trans (size_await (by omega) _more) shorter

/-- `TTYBUS::readidle`. -/
def readidle (host : Host) : List Byte × Ending := host.idleLoop

/-! ### What is read is counted -/

/-- The codes still to be read. -/
def pending (host : Host) : Nat := host.port.flatten.countP isCode

theorem lclreadcode_pending (host : Host) (start len : Nat) :
    host.pending = (host.lclreadcode start len).2 + (host.lclreadcode start len).1.pending := by
  have count := compact_count start (Lies.store host.buf start (Port.read len host.port).1)
  rw [pending, ← read_flatten len host.port, List.countP_append, ← count]
  rfl

theorem lclreadcode_le (host : Host) (start len : Nat) : (host.lclreadcode start len).2 ≤ len := by
  have count := compact_count start (Lies.store host.buf start (Port.read len host.port).1)
  have few := read_length len host.port
  exact Nat.le_trans (Nat.le_of_eq count) (Nat.le_trans List.countP_le_length few)

theorem fetch_pending {host next : Host} {nr : Nat} (found : host.fetch = some (next, nr)) :
    host.pending = nr + next.pending := by
  obtain ⟨_, rfl, rfl⟩ := fetch_eq found
  exact lclreadcode_pending host 0 1

theorem fetch_code {host next : Host} {nr : Nat} (found : host.fetch = some (next, nr))
    (valid : chardec (next.buf 0) ≠ none) : nr = 1 := by
  obtain ⟨given, rfl, rfl⟩ := fetch_eq found
  obtain ⟨char, one⟩ : ∃ char, (Port.read 1 host.port).1 = [char] := by
    rw [← List.length_eq_one_iff]
    have some := List.length_pos_iff.mpr given
    have few := read_length 1 host.port
    omega
  simp only [lclreadcode, one, List.length_singleton, compact, Host.store] at valid ⊢
  split at valid
  · next invalid => exact absurd invalid valid
  · next other => rw [if_neg other]

theorem await_pending {host next : Host} {nr want : Nat} (short : nr < want)
    (came : host.await nr want = some next) : host.pending = (want - nr) + next.pending := by
  fun_induction await host nr want with
  | case1 => cases came
  | case2 host nr some again ih =>
      have now := lclreadcode_pending host nr (want - nr)
      have later := ih again came
      omega
  | case3 host nr some enough =>
      cases came
      have now := lclreadcode_pending host nr (want - nr)
      have few := lclreadcode_le host nr (want - nr)
      omega


@[simp] theorem front_length (host : Host) (count : Nat) : (host.front count).length = count := by
  rw [front, List.length_map, List.length_range]

theorem readOff_le (next : Host) (sixbits : Six) :
    (next.readOff sixbits).1.length ≤ next.pending + 1 := by
  rw [readOff, decodeWord, dataLength]
  by_cases last : sixbits &&& 0x3e = 0x06
  · rw [if_pos last, if_pos last, tableRead]
    simp only [front_length, Nat.le_add_left]
  · rw [if_neg last, if_neg last]
    by_cases far : sixbits &&& 0x30 = 0x10
    · rw [if_pos far, if_pos far]
      cases came : next.await 1 2 with
      | none => simp only [front_length, Nat.le_add_left]
      | some filled =>
          have count := await_pending (by decide) came
          simp only [tableRead, front_length]
          omega
    · rw [if_neg far, if_neg far]
      by_cases near : sixbits &&& 0x30 = 0x20
      · rw [if_pos near, if_pos near, tableRead]
        simp only [front_length, Nat.le_add_left]
      · rw [if_neg near, if_neg near]
        by_cases raw : sixbits &&& 0x38 = 0x38
        · rw [if_pos raw, if_pos raw]
          cases came : next.await 1 6 with
          | none => simp only [front_length, Nat.le_add_left]
          | some filled =>
              have count := await_pending (by decide) came
              simp only [rawRead, front_length]
              omega
        · rw [if_neg raw, if_neg raw]
          simp only [front_length, Nat.le_add_left]

/-- The two fetches of one turn. -/
theorem fetches_pending {host between next : Host} {nr count : Nat} {sixbits : Six}
    (first : host.fetch = some (between, nr)) (found : nr ≠ 0)
    (second : between.fetch = some (next, count)) (valid : chardec (next.buf 0) = some sixbits) :
    next.pending + 1 ≤ host.pending - 1 := by
  have one := fetch_pending first
  have two := fetch_pending second
  rw [fetch_code second (by rw [valid]; nofun)] at two
  omega

/-- Of the codes at hand one at least is not acted on. -/
theorem acted_le (host : Host) : host.idleLoop.1.length ≤ host.pending - 1 := by
  fun_induction idleLoop host with
  | case1 => exact Nat.zero_le _
  | case2 => exact Nat.zero_le _
  | case3 => exact Nat.zero_le _
  | case4 => exact Nat.zero_le _
  | case5 host _ between nr first found next count second _ ih =>
      have one := fetch_pending first
      have two := fetch_pending second
      omega
  | case6 host _ between nr first found next count second sixbits valid =>
      have left := fetches_pending first found second valid
      rw [front_length]
      omega
  | case7 host _ between nr first found next count second later valid _ _ ih =>
      have left := fetches_pending first found second valid
      change later.1.length ≤ next.pending - 1 at ih
      rw [List.length_append, front_length]
      omega
  | case8 host _ between nr first found next count second sixbits valid _ _ _ ih =>
      have left := fetches_pending first found second valid
      rw [List.length_append, front_length]
      omega
  | case9 host _ between nr first found next count second sixbits valid =>
      have left := fetches_pending first found second valid
      rw [front_length]
      omega
  | case10 host _ between nr first found next count second sixbits valid _ _ last came ih =>
      have left := fetches_pending first found second valid
      have more := await_pending (by decide) came
      rw [List.length_append, front_length]
      omega
  | case11 host _ between nr first found next count second sixbits valid =>
      have left := fetches_pending first found second valid
      rw [front_length]
      omega
  | case12 host _ between nr first found next count second sixbits valid _ _ _ last came ih =>
      have left := fetches_pending first found second valid
      have more := await_pending (by omega) came
      rw [List.length_append, front_length]
      omega
  | case13 host _ between nr first found next count second sixbits valid =>
      have left := fetches_pending first found second valid
      exact Nat.le_trans (readOff_le next sixbits) left

/-! ### Characters and codewords -/

/-- The characters of a codeword, from its first one. -/
def codewordLength (first : Six) : Nat :=
  if first < 6 then 1
  else if first &&& 0x3c = 0x08 then 6
  else if first &&& 0x3c = 0x0c then (first &&& 0x03).toNat + 2
  else dataLength first

/-- The first codes of the codewords in a stream, `inside` codes into the first. -/
def firsts : Nat → List Six → List Six
  | _, [] => []
  | 0, first :: codes => first :: firsts (codewordLength first - 1) codes
  | inside + 1, _ :: codes => firsts inside codes

/-- The codewords at hand. -/
def notices (host : Host) : List Six := firsts 0 (host.port.flatten.filterMap chardec)

/-- Each character that has come is acted on once, and the notices are passed on. -/
structure Interprets (host : Host) : Prop where
  once : host.readidle.1 = host.port.flatten.filter isCode
  error : 3 ∈ host.notices ∨ 5 ∈ host.notices →
    ∃ last, host.readidle.2 = .busErr last ∧ last.bus.busErr = true
  interrupt : 4 ∈ host.notices → ∃ last,
    (host.readidle.2 = .returned last ∨ host.readidle.2 = .busErr last) ∧
      last.bus.interruptFlag = true

/-- No code at hand, so nothing to act on. -/
theorem Interprets.of_none {host : Host} (none : ∀ char ∈ host.port.flatten, chardec char = none) :
    host.Interprets := by
  have no : host.notices = [] := by
    rw [notices, List.filterMap_eq_nil_iff.mpr none]
    rfl
  have empty : host.pending = 0 := by
    rw [pending, List.countP_eq_zero]
    exact fun char at_hand => by rw [not_isCode.mpr (none char at_hand)]; nofun
  have acted := acted_le host
  rw [empty, Nat.zero_sub, Nat.le_zero, List.length_eq_zero_iff] at acted
  refine ⟨?_, ?_, ?_⟩
  · rw [pending, List.countP_eq_length_filter, List.length_eq_zero_iff] at empty
    rw [empty]
    exact acted
  · rw [no]
    nofun
  · rw [no]
    nofun

/-- `readidle` acts on every character it is given only if none of them is a code:
whenever a code is at hand, one is lost or left. -/
theorem readidle_interprets_iff (host : Host) :
    host.Interprets ↔ ∀ char ∈ host.port.flatten, chardec char = none := by
  refine ⟨fun interprets => ?_, Interprets.of_none⟩
  have acted : host.readidle.1.length ≤ host.pending - 1 := acted_le host
  rw [interprets.once, ← List.countP_eq_length_filter, ← pending] at acted
  have empty : host.pending = 0 := by omega
  intro char at_hand
  rw [← not_isCode, ← Bool.not_eq_true]
  exact List.countP_eq_zero.mp empty char at_hand

theorem fetch_batch {host : Host} {value : Six} {batch : List Byte} {rest : Port}
    (port : host.port = (charenc value :: batch) :: rest) :
    ∃ next : Host, host.fetch = some (next, 1) ∧ next.bus = host.bus ∧
      next.buf 0 = charenc value ∧ next.port = if batch = [] then rest else batch :: rest := by
  have buf : Function.update host.buf 0 (charenc value) 0 = charenc value := Function.update_self ..
  refine ⟨⟨host.bus, Function.update host.buf 0 (charenc value),
    if batch = [] then rest else batch :: rest⟩, ?_, rfl, buf, rfl⟩
  simp [fetch, lclreadcode, port, Port.read, Host.store, compact]

/-- A turn of the loop with a quiet character in its body. -/
theorem idleLoop_quiet {host between next : Host} {nr count : Nat} {sixbits : Six}
    (given : host.port ≠ []) (first : host.fetch = some (between, nr)) (found : nr ≠ 0)
    (second : between.fetch = some (next, count)) (valid : chardec (next.buf 0) = some sixbits)
    (quiet : sixbits < 6 ∧ sixbits ≠ 3 ∧ sixbits ≠ 4 ∧ sixbits ≠ 5) :
    host.idleLoop = (next.front 1 ++ next.idleLoop.1, next.idleLoop.2) := by
  obtain ⟨small, three, four, five⟩ := quiet
  rw [idleLoop, if_neg given]
  split
  · next none => rw [first] at none; cases none
  · next same =>
      rw [first] at same
      cases same
      rw [if_neg found]
      split
      · next none => rw [second] at none; cases none
      · next same =>
          rw [second] at same
          cases same
          rw [valid]
          dsimp only
          rw [if_pos small, if_neg (not_or.mpr ⟨three, five⟩), if_neg four]

/-- The first of two quiet characters is dropped, the second one is acted on. -/
theorem idleLoop_pair {host : Host} {dropped kept : Six} {batch : List Byte} {rest : Port}
    (port : host.port = (charenc dropped :: charenc kept :: batch) :: rest)
    (quiet : kept < 6 ∧ kept ≠ 3 ∧ kept ≠ 4 ∧ kept ≠ 5) :
    ∃ next : Host, host.idleLoop = (charenc kept :: next.idleLoop.1, next.idleLoop.2) ∧
      next.bus = host.bus ∧ next.port = if batch = [] then rest else batch :: rest := by
  obtain ⟨between, first, same, _, left⟩ := fetch_batch port
  obtain ⟨next, second, bus, buf, after⟩ := fetch_batch (left.trans (if_neg (by simp)))
  have front : next.front 1 = [charenc kept] := congrArg (fun char => [char]) buf
  refine ⟨next, ?_, bus.trans same, after⟩
  rw [idleLoop_quiet (by rw [port]; nofun) first Nat.one_ne_zero second
    (by rw [buf, chardec_charenc]) quiet, front]
  rfl

/-- A bus error in front of an idle character goes unheard. -/
theorem error_unheard :
    ¬ Interprets ⟨TtyBus.fresh, fun _ => 0, [[charenc 3, charenc 0]]⟩ := by
  rintro ⟨_, error, _⟩
  obtain ⟨last, ended, _⟩ := error (by decide)
  let host : Host := ⟨TtyBus.fresh, fun _ => 0, [[charenc 3, charenc 0]]⟩
  have port : host.port = (charenc 3 :: charenc 0 :: []) :: [] := rfl
  obtain ⟨next, same, _, left⟩ := idleLoop_pair port (by decide)
  rw [if_pos rfl] at left
  rw [readidle, same, idleLoop, if_pos left] at ended
  cases ended

end Host

end ZipVersa.DebugBus
