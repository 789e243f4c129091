import ZipVersa.DebugBus.HostForms

/-! The commands of a `readv`, as they reach `wbuexec`. The host asks for blocks
of 512 words and a last shorter one; one length of a block shares its character
with the end of writes. -/

set_option autoImplicit false

namespace ZipVersa.DebugBus

open Lib

/-- The blocks `readv` asks for. -/
def blockLens (len : Nat) : List Nat :=
  if len ≤ TtyBus.readblock then (if len = 0 then [] else [len])
  else TtyBus.readblock :: blockLens (len - TtyBus.readblock)
termination_by len
decreasing_by
  unfold TtyBus.readblock at *
  omega

@[simp] theorem blockLens_zero : blockLens 0 = [] := by simp [blockLens]

theorem blockLens_sum (len : Nat) : (blockLens len).sum = len := by
  fun_induction blockLens len with
  | case1 => rfl
  | case2 => simp
  | case3 len long ih =>
      rw [List.sum_cons, ih]
      omega

theorem blockLens_pos {len block : Nat} (member : block ∈ blockLens len) :
    0 < block ∧ block ≤ 512 := by
  fun_induction blockLens len with
  | case1 => simp at member
  | case2 len short some =>
      rw [List.mem_singleton.mp member]
      exact ⟨by omega, short⟩
  | case3 len long ih =>
      rcases List.mem_cons.mp member with rfl | later
      · exact ⟨by decide, Nat.le_refl _⟩
      · exact ih later

theorem blockLens_mem {len block : Nat} (member : block ∈ blockLens len) :
    block = 512 ∨ block = len % 512 := by
  fun_induction blockLens len with
  | case1 => simp at member
  | case2 len short some =>
      rw [List.mem_singleton.mp member]
      unfold TtyBus.readblock at short
      omega
  | case3 len long ih =>
      unfold TtyBus.readblock at *
      rcases List.mem_cons.mp member with rfl | later
      · exact .inl rfl
      · have := ih later
        omega

/-- The last block is what is left over. -/
theorem blockLens_last {len : Nat} (uneven : len % 512 ≠ 0) :
    ∃ full, blockLens len = full ++ [len % 512] ∧ ∀ block ∈ full, block = 512 := by
  fun_induction blockLens len with
  | case1 => simp at uneven
  | case2 len short some =>
      exact ⟨[], by rw [Nat.mod_eq_of_lt]; rfl; unfold TtyBus.readblock at short; omega, by simp⟩
  | case3 len long ih =>
      unfold TtyBus.readblock at *
      obtain ⟨full, found, same⟩ := ih (by omega)
      refine ⟨512 :: full, ?_, ?_⟩
      · rw [found, show (len - 512) % 512 = len % 512 by omega]
        rfl
      · intro block member
        rcases List.mem_cons.mp member with rfl | later
        · rfl
        · exact same block later

namespace TtyBus

/-- Between the commands of a burst: whole blocks were ordered and received,
and there is room for another block. -/
structure Paced (len cmdrd nread : Nat) : Prop where
  ordered : 512 ∣ cmdrd
  received : 512 ∣ nread
  behind : nread ≤ cmdrd
  room : cmdrd - nread < 1024
  more : cmdrd < len

theorem Paced.nextBlock {len cmdrd nread : Nat} (paced : Paced len cmdrd nread) :
    nextBlock len cmdrd nread = min (len - cmdrd) 512 ∧
      blockLens (len - cmdrd) =
        nextBlock len cmdrd nread :: blockLens (len - (cmdrd + nextBlock len cmdrd nread)) := by
  obtain ⟨⟨many, rfl⟩, ⟨taken, rfl⟩, behind, room, more⟩ := paced
  have block : TtyBus.nextBlock len (512 * many) (512 * taken) = min (len - 512 * many) 512 := by
    unfold TtyBus.nextBlock readahead readblock
    dsimp only
    split <;> split <;> omega
  refine ⟨block, ?_⟩
  rw [block, blockLens]
  split
  · next short =>
      unfold readblock at short
      rw [if_neg (by omega), Nat.min_eq_left short, show len - (512 * many + (len - 512 * many)) = 0
        by omega, blockLens_zero]
  · next long =>
      unfold readblock at long ⊢
      rw [Nat.min_eq_right (by omega), Nat.sub_sub]

/-- A burst orders the next blocks of the read. -/
theorem Paced.readBurst {len cmdrd nread : Nat} (paced : Paced len cmdrd nread) (inc : Bool) :
    ∃ blocks last, readBurst inc len nread cmdrd = some (blocks.flatMap (readChars inc), last) ∧
      blockLens (len - cmdrd) = blocks ++ blockLens (len - last) ∧
      cmdrd < last ∧ last ≤ len ∧ (last < len → 512 ∣ last) ∧ last - nread ≤ 1024 := by
  fun_induction TtyBus.readBurst inc len nread cmdrd with
  | case1 cmdrd refused =>
      obtain ⟨block, -⟩ := paced.nextBlock
      have := paced.more
      rw [readcmd, if_pos (by omega)] at refused
      cases refused
  | case2 cmdrd chars ordered again ih =>
      obtain ⟨block, split⟩ := paced.nextBlock
      obtain ⟨-, rfl⟩ := readcmd_eq_some.mp ordered
      have := paced.more
      have whole : TtyBus.nextBlock len cmdrd nread = 512 := by omega
      have next : Paced len (cmdrd + TtyBus.nextBlock len cmdrd nread) nread :=
        ⟨by rw [whole]; exact Nat.dvd_add paced.ordered (Nat.dvd_refl _), paced.received,
          Nat.le_trans paced.behind (Nat.le_add_right _ _), again.1, again.2⟩
      obtain ⟨blocks, last, found, rest, later, inside, pace, few⟩ := ih next
      refine ⟨TtyBus.nextBlock len cmdrd nread :: blocks, last, ?_, ?_, by omega, inside, pace, few⟩
      · rw [found]
        rfl
      · rw [split, rest]
        rfl
  | case3 cmdrd chars ordered done =>
      obtain ⟨block, split⟩ := paced.nextBlock
      obtain ⟨-, rfl⟩ := readcmd_eq_some.mp ordered
      obtain ⟨⟨many, rfl⟩, ⟨taken, rfl⟩, behind, room, more⟩ := paced
      refine ⟨[TtyBus.nextBlock len (512 * many) (512 * taken)], _, ?_, split, by omega, by omega,
        by omega, by omega⟩
      rw [List.flatMap_singleton]

/-- What the device hears of one block. -/
def blockCommand (inc : Bool) (len : Nat) : Command :=
  if inc = false ∧ len = 8 then .endOfWrites else .read inc (BitVec.ofNat 10 len)

theorem readChars_hears {decoder : Decoder} (ready : decoder.Ready) (inc : Bool) {len : Nat}
    (some : 0 < len) (inside : len ≤ 512) :
    ∃ after, decoder.Hears ((readChars inc len).map charenc) [blockCommand inc len] after ∧
      after.Ready ∧ after.lastcw ≠ 1#2 := by
  unfold blockCommand
  split
  · next eight =>
      obtain ⟨rfl, rfl⟩ := eight
      obtain ⟨after, spells, kept⟩ := readChars_eight_spells ready
      exact ⟨after, spells.hears, kept.ready, by rw [spells.lastcw]; decide⟩
  · next other =>
      obtain ⟨last, after, spells, kept, notWrite⟩ :=
        readChars_spells ready some (by omega) other
      exact ⟨after, spells.hears, kept.ready, by rw [spells.lastcw]; exact notWrite⟩

theorem blocks_hears {decoder : Decoder} (ready : decoder.Ready) (inc : Bool) {blocks : List Nat}
    (inside : ∀ block ∈ blocks, 0 < block ∧ block ≤ 512) (some : blocks ≠ []) :
    ∃ after, decoder.Hears ((blocks.flatMap (readChars inc)).map charenc)
        (blocks.map (blockCommand inc)) after ∧ after.Ready ∧ after.lastcw ≠ 1#2 := by
  induction blocks generalizing decoder with
  | nil => exact absurd rfl some
  | cons block rest ih =>
      obtain ⟨positive, most⟩ := inside block (.head _)
      obtain ⟨between, first, open', last⟩ := readChars_hears ready inc positive most
      by_cases empty : rest = []
      · subst empty
        exact ⟨between, by simpa using first, open', last⟩
      · obtain ⟨after, second, done, notWrite⟩ :=
          ih open' (fun other member => inside other (.tail _ member)) empty
        refine ⟨after, ?_, done, notWrite⟩
        rw [List.flatMap_cons, List.map_append, List.map_cons]
        exact first.append second

/-- At the top of the outer loop, one block may be under way. -/
structure Between (len cmdrd nread : Nat) : Prop where
  inside : cmdrd ≤ len
  under : cmdrd - nread ≤ 512
  paced : cmdrd < len → Paced len cmdrd nread

theorem Between.next {len cmdrd nread last : Nat} (behind : nread ≤ cmdrd) (received : 512 ∣ nread)
    (later : cmdrd < last) (inside : last ≤ len) (whole : last < len → 512 ∣ last) :
    Between len last (max nread (last - readahead)) := by
  refine ⟨inside, by unfold readahead; omega, fun more => ?_⟩
  obtain ⟨many, rfl⟩ := whole more
  obtain ⟨taken, rfl⟩ := received
  unfold readahead
  refine ⟨⟨many, rfl⟩, ⟨max taken (many - 1), ?_⟩, ?_, ?_, more⟩ <;> omega

theorem readLoop_hears {inc : Bool} {len : Nat} {ptr : List Six} {cmdrd nread : Nat}
    (between : Between len cmdrd nread) {decoder addressed : Decoder} {before : List Command}
    (start : decoder.Hears (ptr.map charenc) before addressed) (ready : addressed.Ready)
    (used : cmdrd < len ∨ ptr = []) :
    ∃ actions after, readLoop inc len ptr cmdrd nread = some actions ∧
      decoder.Hears (sent actions)
        (before ++ (blockLens (len - cmdrd)).map (blockCommand inc)) after ∧ after.Ready := by
  fun_induction readLoop inc len ptr cmdrd nread generalizing decoder addressed before with
  | case1 ptr cmdrd nread more refused =>
      obtain ⟨blocks, last, found, -⟩ := (between.paced more).readBurst inc
      rw [found] at refused
      cases refused
  | case2 ptr cmdrd nread more chars last found ih =>
      have paced := between.paced more
      obtain ⟨blocks, stop, burst, split, later, inside, whole, -⟩ := paced.readBurst inc
      rw [found] at burst
      cases burst
      have members : ∀ block ∈ blocks, 0 < block ∧ block ≤ 512 := by
        intro block member
        have among : block ∈ blockLens (len - cmdrd) := by
          rw [split]
          exact List.mem_append_left _ member
        exact blockLens_pos among
      have some : blocks ≠ [] := by
        rintro rfl
        have := congrArg List.sum split
        rw [List.nil_append, blockLens_sum, blockLens_sum] at this
        omega
      obtain ⟨ordered, hears, open', notWrite⟩ := blocks_hears ready inc members some
      obtain ⟨ended, silent, kept⟩ := ordered.hears_newline notWrite
      obtain ⟨actions, after, rest, heard, done⟩ :=
        ih (Between.next paced.behind paced.received later inside whole) (.nil ended)
          kept.ready (.inr rfl)
      refine ⟨_, after, by rw [rest]; rfl, ?_, done⟩
      have order := ((start.append hears).append silent).append heard
      rw [split, List.map_append]
      simpa using order
  | case3 ptr cmdrd nread done =>
      obtain rfl : ptr = [] := used.resolve_left done
      have empty : blockLens (len - cmdrd) = [] := by
        rw [Nat.sub_eq_zero_of_le (Nat.le_of_not_lt done), blockLens_zero]
      refine ⟨_, addressed, rfl, ?_, ready⟩
      rw [empty]
      simpa using start

end TtyBus

/-! ### How many words are under way -/

/-- The words a list of commands asks for. -/
def lens (commands : List Command) : Nat := (commands.map Command.len).sum

theorem lens_append (first second : List Command) :
    lens (first ++ second) = lens first + lens second := by
  rw [lens, List.map_append, List.sum_append]
  rfl

/-- The words the host has taken in. -/
def readwords (actions : List TtyBus.Action) : Nat := actions.count .readword

namespace TtyBus

theorem blockCommand_len (inc : Bool) {block : Nat} (inside : block ≤ 512) :
    (blockCommand inc block).len ≤ block := by
  unfold blockCommand
  split
  · exact Nat.zero_le _
  · rw [Command.len, BitVec.toNat_ofNat, Nat.mod_eq_of_lt (by omega)]

theorem lens_blocks (inc : Bool) {blocks : List Nat}
    (inside : ∀ block ∈ blocks, 0 < block ∧ block ≤ 512) :
    lens (blocks.map (blockCommand inc)) ≤ blocks.sum := by
  induction blocks with
  | nil => exact Nat.le_refl _
  | cons block rest ih =>
      have first := blockCommand_len inc (inside block (.head _)).2
      have later := ih fun other member => inside other (.tail _ member)
      rw [List.map_cons, List.sum_cons]
      change (blockCommand inc block).len + lens (rest.map (blockCommand inc)) ≤ _
      omega

theorem prefix_cons {Item : Type} {done rest : List Item} {first : Item}
    (before : done <+: first :: rest) : done = [] ∨ ∃ later, done = first :: later ∧ later <+: rest := by
  cases done with
  | nil => exact .inl rfl
  | cons head later =>
      obtain ⟨rfl, among⟩ := List.cons_prefix_cons.mp before
      exact .inr ⟨later, rfl, among⟩

theorem prefix_replicate {Item : Type} {done rest : List Item} {item : Item} {count : Nat}
    (before : done <+: List.replicate count item ++ rest) :
    (∃ fewer, done = List.replicate fewer item) ∨
      ∃ later, done = List.replicate count item ++ later ∧ later <+: rest := by
  induction count generalizing done with
  | zero => exact .inr ⟨done, rfl, before⟩
  | succ count ih =>
      rcases prefix_cons before with rfl | ⟨later, rfl, among⟩
      · exact .inl ⟨0, rfl⟩
      · rcases ih among with ⟨fewer, rfl⟩ | ⟨last, rfl, inside⟩
        · exact .inl ⟨fewer + 1, rfl⟩
        · exact .inr ⟨last, rfl, inside⟩

/-- At no point of the loop are more than 1024 words asked for and not taken
in, as the device hears it. -/
theorem readLoop_balanced {inc : Bool} {len : Nat} {ptr : List Six} {cmdrd nread : Nat}
    (between : Between len cmdrd nread) {decoder addressed : Decoder} {before : List Command}
    (start : decoder.Hears (ptr.map charenc) before addressed) (ready : addressed.Ready)
    (address : lens before = 0) {actions done : List Action}
    (loop : readLoop inc len ptr cmdrd nread = some actions) (early : done <+: actions) :
    lens ((observed Decoder.feed Decoder.emit decoder (sent done)).map decode) + (cmdrd - nread) ≤
      readwords done + 1024 := by
  fun_induction readLoop inc len ptr cmdrd nread
    generalizing decoder addressed before actions done with
  | case1 ptr cmdrd nread more refused => cases loop
  | case2 ptr cmdrd nread more chars last found ih =>
      have paced := between.paced more
      have room := paced.room
      have behind := paced.behind
      obtain ⟨blocks, stop, burst, split, later, inside, whole, few⟩ := paced.readBurst inc
      rw [found] at burst
      cases burst
      have members : ∀ block ∈ blocks, 0 < block ∧ block ≤ 512 := by
        intro block member
        have among : block ∈ blockLens (len - cmdrd) := by
          rw [split]
          exact List.mem_append_left _ member
        exact blockLens_pos among
      have total : blocks.sum = last - cmdrd := by
        have sums := congrArg List.sum split
        rw [List.sum_append, blockLens_sum, blockLens_sum] at sums
        omega
      have some : blocks ≠ [] := by
        rintro rfl
        simp at total
        omega
      obtain ⟨ordered, hears, open', notWrite⟩ := blocks_hears ready inc members some
      obtain ⟨ended, silent, kept⟩ := ordered.hears_newline notWrite
      have asked := lens_blocks inc members
      have burst := (start.append hears).append silent
      rw [List.append_nil, ← List.map_append] at burst
      obtain ⟨rest, run, rfl⟩ := Option.map_eq_some_iff.mp loop
      rcases prefix_cons early with rfl | ⟨after, rfl, among⟩
      · change 0 + (cmdrd - nread) ≤ _
        omega
      · have heard : lens ((observed Decoder.feed Decoder.emit decoder
            ((ptr ++ blocks.flatMap (readChars inc)).map charenc ++ [newline])).map decode) ≤
              last - cmdrd := by
          rw [burst.heard, lens_append, address, Nat.zero_add, ← total]
          exact asked
        rw [sent_send, observed_append, List.map_append, lens_append, burst.fed]
        rcases prefix_replicate among with ⟨fewer, rfl⟩ | ⟨last', rfl, inside'⟩
        · rw [sent_readwords]
          change _ + 0 + _ ≤ _
          omega
        · have fresh : ended.Hears (([] : List Six).map charenc) [] ended := .nil ended
          have after := ih (Between.next paced.behind paced.received later inside whole) fresh
            kept.ready rfl run inside'
          have taken : readwords (.send ((ptr ++ blocks.flatMap (readChars inc)).map charenc ++
              [newline]) :: (List.replicate (last - readahead - nread) .readword ++ last')) =
              last - readahead - nread + readwords last' := by
            simp [readwords]
          rw [sent_append, sent_readwords, List.nil_append, taken]
          unfold readahead at *
          omega
  | case3 ptr cmdrd nread done' =>
      cases loop
      have silent : sent done = [] := by
        rw [← List.append_nil (List.replicate _ _)] at early
        rcases prefix_replicate early with ⟨fewer, rfl⟩ | ⟨last, rfl, inside⟩
        · exact sent_readwords _
        · rw [List.prefix_nil.mp inside, List.append_nil, sent_readwords]
      have under := between.under
      rw [silent]
      change 0 + (cmdrd - nread) ≤ _
      omega

end TtyBus

/-! ### As `wbuexec` takes them -/

/-- The length field of a codeword. -/
def lenField (word : Word) : Nat := (word.extractLsb' 0 10).toNat

/-- In `WB_IDLE` the codeword starts a read of `lenField` words. -/
def StartsRead (inc : Bool) (word : Word) : Prop :=
  ∀ (exec : Exec) (wb : Bus), exec.state = .idle → exec.stb = false →
    (exec.step true word wb).state = .readRequest ∧ (exec.step true word wb).cyc = true ∧
      (exec.step true word wb).stb = true ∧ (exec.step true word wb).we = false ∧
      (exec.step true word wb).inc = inc ∧ (exec.step true word wb).len.toNat = lenField word ∧
      (exec.step true word wb).addr = exec.addr

/-- The address part: one codeword that takes a device at the address the host
remembers, if it remembers one, to `a`, or none when it is there. -/
def AddressCoded (bus : TtyBus) (a : BitVec 32) : List Word → Prop
  | [] => bus.addrSet = true ∧ a = bus.lastaddr
  | [word] => ∀ (exec : Exec) (wb : Bus), exec.state = .idle →
      (bus.addrSet = true → exec.addr = bus.lastaddr >>> 2) →
      (exec.step true word wb).state = .idle ∧ (exec.step true word wb).addr = a >>> 2
  | _ => False

/-- The codewords of a read of `len` words from `a`. -/
def ReadCoded (bus : TtyBus) (a : BitVec 32) (inc : Bool) (len : Nat) (words : List Word) : Prop :=
  ∃ address reads, words = address ++ reads ∧ AddressCoded bus a address ∧
    (∀ word ∈ reads, StartsRead inc word) ∧ (reads.map lenField).sum = len

theorem lenField_of_read {word : Word} {inc : Bool} {len : BitVec 10}
    (read : decode word = .read inc len) : lenField word = len.toNat := by
  rw [lenField, (decode_eq_read read).2]

theorem startsRead_of_decode {word : Word} {inc : Bool} {len : BitVec 10}
    (read : decode word = .read inc len) : StartsRead inc word := by
  intro exec wb idle strobe
  obtain ⟨flag, length, direction⟩ := Exec.idling_read strobe read true wb
  rw [Exec.step_idle idle, read, lenField_of_read read]
  exact ⟨rfl, rfl, rfl, direction, flag, by rw [← length], rfl⟩

theorem not_startsRead_of_endOfWrites {word : Word} {inc : Bool}
    (ends : decode word = .endOfWrites) : ¬ StartsRead inc word := by
  intro starts
  let exec : Exec := ⟨.idle, false, false, false, 0, 0, false, 0, 0, 0, false, false, false, false,
    false, false⟩
  have started := (starts exec ⟨false, false, false, 0⟩ rfl rfl).1
  rw [Exec.step_idle rfl, ends] at started
  cases started

theorem addressCoded_of_reaches {bus : TtyBus} {a : BitVec 32} {command : Command}
    (reaches : bus.Reaches a command) {words : List Word} (said : words.map decode = [command]) :
    AddressCoded bus a words := by
  obtain ⟨word, rfl, meaning⟩ := List.map_eq_singleton_iff.mp said
  intro exec wb idle agrees
  rw [Exec.step_idle idle, meaning]
  rcases reaches with rfl | ⟨offset, rfl, set, -, sum⟩
  · exact ⟨idle, rfl⟩
  · refine ⟨idle, ?_⟩
    dsimp only
    rw [agrees set, sum]

/-- Unless a block has the code of the end of writes, everything is read. -/
theorem readCoded_of_commands {bus : TtyBus} {a : BitVec 32} {inc : Bool} {len : Nat}
    {address reads : List Word} (coded : AddressCoded bus a address)
    (heard : reads.map decode = (blockLens len).map (TtyBus.blockCommand inc))
    (read : ¬ (inc = false ∧ len % 512 = 8)) : ReadCoded bus a inc len (address ++ reads) := by
  have each : ∀ block ∈ blockLens len,
      TtyBus.blockCommand inc block = .read inc (BitVec.ofNat 10 block) := by
    intro block member
    refine if_neg fun eight => read ⟨eight.1, ?_⟩
    have := blockLens_mem member
    omega
  rw [List.map_congr_left each] at heard
  have decoded : ∀ word ∈ reads, ∃ len, decode word = .read inc len := by
    intro word member
    have image : decode word ∈ reads.map decode := List.mem_map_of_mem member
    rw [heard] at image
    obtain ⟨block, -, same⟩ := List.mem_map.mp image
    exact ⟨_, same.symm⟩
  refine ⟨address, reads, rfl, coded, ?_, ?_⟩
  · intro word member
    obtain ⟨len, meaning⟩ := decoded word member
    exact startsRead_of_decode meaning
  · have fields : reads.map lenField = (reads.map decode).map Command.len := by
      rw [List.map_map]
      refine List.map_congr_left fun word member => ?_
      obtain ⟨len, meaning⟩ := decoded word member
      rw [Function.comp_apply, meaning, lenField_of_read meaning]
      rfl
    have lens : (blockLens len).map (fun block => (BitVec.ofNat 10 block).toNat) =
        blockLens len := by
      refine (List.map_congr_left fun block member => ?_).trans (List.map_id _)
      have := blockLens_pos member
      rw [BitVec.toNat_ofNat, Nat.mod_eq_of_lt (by omega)]
      rfl
    rw [fields, heard, List.map_map]
    exact (congrArg List.sum lens).trans (blockLens_sum len)

/-- With a block of eight at one address, the last codeword is no read. -/
theorem not_readCoded_of_commands {bus : TtyBus} {a : BitVec 32} {inc : Bool} {len : Nat}
    {address reads : List Word}
    (heard : reads.map decode = (blockLens len).map (TtyBus.blockCommand inc))
    (still : inc = false) (eight : len % 512 = 8) :
    ¬ ReadCoded bus a inc len (address ++ reads) := by
  rintro ⟨other, taken, same, -, starts, sum⟩
  obtain ⟨full, blocks, -⟩ := blockLens_last (show len % 512 ≠ 0 by omega)
  have ending : TtyBus.blockCommand inc 8 = .endOfWrites := if_pos ⟨still, rfl⟩
  rw [blocks, List.map_append, eight, List.map_singleton, ending] at heard
  obtain ⟨early, last, rfl, -, tail⟩ := List.map_eq_append_iff.mp heard
  obtain ⟨word, rfl, meaning⟩ := List.map_eq_singleton_iff.mp tail
  rcases List.eq_nil_or_concat taken with rfl | ⟨front, final, rfl⟩
  · simp at sum
    omega
  · have found : word = final := by
      have lasts := congrArg List.getLast? same
      simpa using lasts
    refine not_startsRead_of_endOfWrites meaning (starts word ?_)
    rw [found]
    simp

/-! ### The read command coding -/

/-- Before the loop: the address, if it needs one. -/
theorem readv_start (bus : TtyBus) (a : BitVec 32) (inc : Bool) (len : Nat)
    (aligned : a &&& 3 = 0) (lastAligned : bus.addrSet = true → bus.lastaddr &&& 3 = 0)
    (some : 0 < len) {decoder : Decoder} (ready : decoder.Ready) :
    ∃ addressed ptr before between, decoder.Hears (ptr.map charenc) before between ∧
      between.Ready ∧
      (before = [] ∧ bus.addrSet = true ∧ a = bus.lastaddr ∨
        ∃ command, before = [command] ∧ bus.Reaches a command) ∧
      ∀ actions, TtyBus.readLoop inc len ptr 0 0 = .some actions →
        bus.readv a inc len = .some (addressed, actions) := by
  obtain ⟨rdaddr, chars, encoded, form⟩ := bus.encodeAddress_spells ready aligned lastAligned
  have shape : ∀ actions, TtyBus.readLoop inc len chars 0 0 = .some actions →
      bus.readv a inc len = .some ({ bus with rdaddr }, actions) := by
    intro actions loop
    rw [TtyBus.readv, if_neg (Nat.ne_of_gt some), encoded, Option.bind_some]
    dsimp only
    rw [loop]
    rfl
  rcases form with ⟨rfl, here⟩ | ⟨-, command, between, reaches, spells, kept⟩
  · exact ⟨_, [], [], decoder, .nil decoder, ready, .inl ⟨rfl, here⟩, shape⟩
  · exact ⟨_, chars, [command], between, spells.hears, kept.ready, .inr ⟨command, rfl, reaches⟩,
      shape⟩

theorem TtyBus.Between.start (len : Nat) : TtyBus.Between len 0 0 :=
  ⟨Nat.zero_le _, by decide, fun more => ⟨⟨0, rfl⟩, ⟨0, rfl⟩, Nat.le_refl _, by decide, more⟩⟩

theorem readv_commands (bus : TtyBus) (a : BitVec 32) (inc : Bool) (len : Nat)
    (aligned : a &&& 3 = 0) (lastAligned : bus.addrSet = true → bus.lastaddr &&& 3 = 0)
    (some : 0 < len) {decoder : Decoder} (ready : decoder.Ready) :
    ∃ addressed actions, bus.readv a inc len = .some (addressed, actions) ∧
      ∃ address reads, observed Decoder.feed Decoder.emit decoder (TtyBus.sent actions) =
        address ++ reads ∧ AddressCoded bus a address ∧
        reads.map decode = (blockLens len).map (TtyBus.blockCommand inc) := by
  obtain ⟨addressed, ptr, before, between, hears, ready, form, shape⟩ :=
    readv_start bus a inc len aligned lastAligned some ready
  obtain ⟨actions, after, loop, heard, -⟩ :=
    TtyBus.readLoop_hears (TtyBus.Between.start len) hears ready (.inl some)
  obtain ⟨address, reads, split, said, rest⟩ := List.map_eq_append_iff.mp heard.heard
  refine ⟨_, actions, shape actions loop, address, reads, split, ?_, rest⟩
  rcases form with ⟨rfl, here⟩ | ⟨command, rfl, reaches⟩
  · rw [List.map_eq_nil_iff.mp said]
    exact here
  · exact addressCoded_of_reaches reaches said

/-- The characters of a `readv`, through the input side of the device, are an
address for `a / 4` and reads of `len` words in all, unless the last block is
eight words of one address. -/
theorem readv_coded_iff (bus : TtyBus) (a : BitVec 32) (inc : Bool) (len : Nat)
    (aligned : a &&& 3 = 0) (lastAligned : bus.addrSet = true → bus.lastaddr &&& 3 = 0)
    (some : 0 < len) {input : WbuInput} {decoder : Decoder} (tracks : Tracks input decoder)
    (ready : decoder.Ready) :
    ∃ addressed actions, bus.readv a inc len = .some (addressed, actions) ∧
      ∀ inputs, Spaced Serial.char 7 inputs (TtyBus.sent actions) →
        (ReadCoded bus a inc len (observed WbuInput.step WbuInput.words input inputs) ↔
          ¬ (inc = false ∧ len % 512 = 8)) := by
  obtain ⟨addressed, actions, read, address, reads, words, coded, heard⟩ :=
    readv_commands bus a inc len aligned lastAligned some ready
  refine ⟨addressed, actions, read, fun inputs spaced => ?_⟩
  rw [(wbuinput_settles.run spaced tracks).2, words]
  constructor
  · rintro isCoded ⟨still, eight⟩
    exact not_readCoded_of_commands heard still eight isCoded
  · exact readCoded_of_commands coded heard

/-- Nine words of one address, from a host that has just started. -/
theorem nine_words_coded : ∃ addressed actions,
    TtyBus.fresh.readv 0x100 false 9 = some (addressed, actions) ∧
      ReadCoded TtyBus.fresh 0x100 false 9
        (observed WbuInput.step WbuInput.words WbuInput.reset (paced (TtyBus.sent actions))) := by
  obtain ⟨addressed, actions, read, coded⟩ :=
    readv_coded_iff TtyBus.fresh 0x100 false 9 (by decide) (by decide) (by decide) reset_tracks
      ⟨rfl, rfl⟩
  exact ⟨addressed, actions, read, (coded _ (paced_spaced _)).mpr (by decide)⟩

/-- Eight words of one address: the device hears the end of writes. -/
theorem eight_words_not_coded : ∃ addressed actions,
    TtyBus.fresh.readv 0x100 false 8 = some (addressed, actions) ∧
      ¬ ReadCoded TtyBus.fresh 0x100 false 8
        (observed WbuInput.step WbuInput.words WbuInput.reset (paced (TtyBus.sent actions))) := by
  obtain ⟨addressed, actions, read, address, reads, words, -, heard⟩ :=
    readv_commands TtyBus.fresh 0x100 false 8 (by decide) (by decide) (by decide)
      (show Decoder.reset.Ready from ⟨rfl, rfl⟩)
  refine ⟨addressed, actions, read, ?_⟩
  rw [(wbuinput_settles.run (paced_spaced _) reset_tracks).2, words]
  exact not_readCoded_of_commands heard rfl rfl

end ZipVersa.DebugBus
