import Mathlib.Data.List.Forall2
import ZipVersa.Net.MainLoop

/-! What a run of `arp_table_add` makes of the table. The scan of `arp_lookup`
keeps every entry at its index and only ages it; an entry is written to in one
place, and only where the scan has found its address, or not at all. -/

set_option autoImplicit false

namespace ZipVersa.Net

open Lib

/-- No two valid entries hold the same address. -/
def Distinct (table : List ArpTableEntry) : Prop :=
  ∀ (first second : Nat) (left right : ArpTableEntry), table[first]? = some left →
    table[second]? = some right → left.valid = true → right.valid = true →
    left.ipaddr = right.ipaddr → first = second

/-- Old enough for `arp_lookup` to give up. -/
def ArpTableEntry.Expired (entry : ArpTableEntry) : Prop := (0x10000#32).sle entry.age = true

/-- What the scan may do to an entry. -/
structure Passed (before after : ArpTableEntry) : Prop where
  ipaddr : after.ipaddr = before.ipaddr
  mac : after.mac = before.mac
  invalid : after.valid = true → before.valid = true
  valid : before.valid = true → after.valid = true ∨ before.Expired

theorem Passed.refl (entry : ArpTableEntry) : Passed entry entry :=
  ⟨rfl, rfl, id, .inl⟩

variable {table : List ArpTableEntry} {ipaddr oldage : BitVec 32} {mac : BitVec 64}

theorem arpScan_passed (ipaddr oldage : BitVec 32) (table : List ArpTableEntry) :
    List.Forall₂ Passed table (arpScan ipaddr oldage table).1 := by
  induction table generalizing oldage with
  | nil => exact .nil
  | cons entry rest ih =>
      rw [arpScan]
      split_ifs with valid same elder
      · exact .cons ⟨rfl, rfl, id, fun _ => .inl valid⟩ (List.forall₂_same.mpr fun _ _ => .refl _)
      · refine .cons ⟨rfl, rfl, fun _ => valid, fun _ => ?_⟩ (ih entry.age)
        cases expired : (0x10000#32).sle entry.age with
        | true => exact .inr expired
        | false => exact .inl rfl
      · exact .cons ⟨rfl, rfl, id, fun _ => .inl valid⟩ (ih oldage)
      · exact .cons (.refl entry) (ih oldage)

/-- The scan fails when no valid entry has the address. -/
theorem arpScan_none_iff : (arpScan ipaddr oldage table).2 = none ↔
    ∀ entry ∈ table, entry.valid = true → entry.ipaddr ≠ ipaddr := by
  induction table generalizing oldage with
  | nil => simp [arpScan]
  | cons entry rest ih =>
      rw [arpScan]
      split_ifs with valid same elder
      · simp [valid, same]
      · simp [valid, same, ih]
      · simp [valid, same, ih]
      · simp [valid, ih]

/-- A scan that fails has passed every entry. -/
theorem arpScan_missed (missed : (arpScan ipaddr oldage table).2 = none) :
    List.Forall₂ (fun before after : ArpTableEntry => before.valid = true → after.age = before.age + 1)
      table (arpScan ipaddr oldage table).1 := by
  induction table generalizing oldage with
  | nil => exact .nil
  | cons entry rest ih =>
      rw [arpScan] at missed ⊢
      split_ifs at missed ⊢ with valid same elder
      · exact .cons (fun _ => rfl) (ih missed)
      · exact .cons (fun _ => rfl) (ih missed)
      · exact .cons (fun other => absurd other valid) (ih missed)

/-- What the scan finds is in the table, and stays. -/
theorem arpScan_found (found : (arpScan ipaddr oldage table).2 = some mac) :
    ∃ (slot : Nat) (entry : ArpTableEntry), table[slot]? = some entry ∧ entry.valid = true ∧
      entry.ipaddr = ipaddr ∧ entry.mac = mac ∧
      (arpScan ipaddr oldage table).1[slot]? = some { entry with age := 0 } := by
  induction table generalizing oldage with
  | nil => cases found
  | cons entry rest ih =>
      rw [arpScan] at found ⊢
      split_ifs at found ⊢ with valid same elder
      · cases found
        exact ⟨0, entry, rfl, valid, same, rfl, rfl⟩
      · obtain ⟨slot, hit, here, facts⟩ := ih found
        exact ⟨slot + 1, hit, here, facts⟩
      · obtain ⟨slot, hit, here, facts⟩ := ih found
        exact ⟨slot + 1, hit, here, facts⟩
      · obtain ⟨slot, hit, here, facts⟩ := ih found
        exact ⟨slot + 1, hit, here, facts⟩

theorem Distinct.scan_eq (distinct : Distinct table) {slot : Nat} {entry : ArpTableEntry}
    (here : table[slot]? = some entry) (valid : entry.valid = true) (oldage : BitVec 32) :
    (arpScan entry.ipaddr oldage table).2 = some entry.mac := by
  cases found : (arpScan entry.ipaddr oldage table).2 with
  | none =>
      exact absurd rfl (arpScan_none_iff.mp found entry (List.mem_of_getElem? here) valid)
  | some mac =>
      obtain ⟨other, hit, there, alive, same, held, -⟩ := arpScan_found found
      have slots := distinct other slot hit entry there here alive valid same
      rw [slots, here, Option.some.injEq] at there
      rw [there, held]

private theorem forall₂_at {First Second : Type} {Related : First → Second → Prop}
    {before : List First} {after : List Second} (related : List.Forall₂ Related before after)
    (slot : Nat) : before[slot]? = none ∧ after[slot]? = none ∨
      ∃ left right, before[slot]? = some left ∧ after[slot]? = some right ∧ Related left right := by
  induction related generalizing slot with
  | nil => exact .inl ⟨rfl, rfl⟩
  | @cons left right _ _ here _ ih =>
      cases slot with
      | zero => exact .inr ⟨left, right, rfl, rfl, here⟩
      | succ slot => exact ih slot

theorem Passed.backward {after : List ArpTableEntry} (passed : List.Forall₂ Passed table after)
    {slot : Nat} {entry : ArpTableEntry} (here : after[slot]? = some entry) :
    ∃ before, table[slot]? = some before ∧ Passed before entry := by
  rcases forall₂_at passed slot with ⟨-, none⟩ | ⟨left, right, was, is, related⟩
  · rw [none] at here
    cases here
  · rw [is, Option.some.injEq] at here
    exact ⟨left, was, here ▸ related⟩

theorem Passed.forward {after : List ArpTableEntry} (passed : List.Forall₂ Passed table after)
    {slot : Nat} {entry : ArpTableEntry} (here : table[slot]? = some entry) :
    ∃ later, after[slot]? = some later ∧ Passed entry later := by
  rcases forall₂_at passed slot with ⟨none, -⟩ | ⟨left, right, was, is, related⟩
  · rw [none] at here
    cases here
  · rw [was, Option.some.injEq] at here
    exact ⟨right, is, here ▸ related⟩

/-- Entries that were valid with the same address before. -/
theorem Distinct.of_backward {after : List ArpTableEntry} (distinct : Distinct table)
    (backward : ∀ (slot : Nat) (entry : ArpTableEntry), after[slot]? = some entry →
      ∃ before, table[slot]? = some before ∧ entry.ipaddr = before.ipaddr ∧
        (entry.valid = true → before.valid = true)) : Distinct after := by
  intro first second left right here there leftValid rightValid same
  obtain ⟨one, was, kept, alive⟩ := backward first left here
  obtain ⟨two, had, held, valid⟩ := backward second right there
  refine distinct first second one two was had (alive leftValid) (valid rightValid) ?_
  rw [← kept, ← held]
  exact same

theorem Distinct.passed {after : List ArpTableEntry} (distinct : Distinct table)
    (passed : List.Forall₂ Passed table after) : Distinct after := by
  refine distinct.of_backward fun slot entry here => ?_
  obtain ⟨before, was, kept⟩ := Passed.backward passed here
  exact ⟨before, was, kept.ipaddr, kept.invalid⟩

/-! ### Where an entry goes -/

/-- A free slot, or in a full table one of the greatest age. -/
inductive Eldest (table : List ArpTableEntry) (slot : Nat) : Prop where
  | free {entry : ArpTableEntry} : table[slot]? = some entry → entry.valid = false →
      Eldest table slot
  | oldest {entry : ArpTableEntry} : (∀ other ∈ table, other.valid = true) →
      table[slot]? = some entry → (∀ other ∈ table, other.age ≤ entry.age) → Eldest table slot

/-- The loop of `get_next_arp_index`, with the entries it has passed. -/
structure Passing (before : List ArpTableEntry) (eldest : Nat) (oldage : BitVec 32) : Prop where
  full : ∀ entry ∈ before, entry.valid = true
  ages : ∀ entry ∈ before, entry.age ≤ oldage
  chosen : before = [] ∧ eldest = 0 ∧ oldage = 0 ∨
    ∃ entry, before[eldest]? = some entry ∧ entry.age = oldage

theorem Passing.next {before : List ArpTableEntry} {eldest : Nat} (passing : Passing before eldest oldage)
    {entry : ArpTableEntry} (valid : entry.valid = true) :
    if oldage < entry.age then Passing (before ++ [entry]) before.length entry.age
    else Passing (before ++ [entry]) eldest oldage := by
  have full : ∀ other ∈ before ++ [entry], other.valid = true := by
    intro other member
    rcases List.mem_append.mp member with old | new
    · exact passing.full other old
    · rw [List.mem_singleton.mp new, valid]
  split_ifs with elder
  · refine ⟨full, fun other member => ?_, .inr ⟨entry, List.getElem?_concat_length, rfl⟩⟩
    rcases List.mem_append.mp member with old | new
    · exact BitVec.le_trans (passing.ages other old) (BitVec.le_of_lt elder)
    · rw [List.mem_singleton.mp new]
      exact BitVec.le_refl _
  · rw [BitVec.not_lt] at elder
    refine ⟨full, fun other member => ?_, ?_⟩
    · rcases List.mem_append.mp member with old | new
      · exact passing.ages other old
      · rw [List.mem_singleton.mp new]
        exact elder
    · rcases passing.chosen with ⟨rfl, rfl, rfl⟩ | ⟨other, here, age⟩
      · exact .inr ⟨entry, rfl, BitVec.le_antisymm elder (Nat.zero_le _)⟩
      · refine .inr ⟨other, ?_, age⟩
        rw [List.getElem?_append_left (List.getElem?_eq_some_iff.mp here).1]
        exact here

theorem nextArpIndex_eldest (rest : List ArpTableEntry) {before : List ArpTableEntry} {eldest : Nat}
    (passing : Passing before eldest oldage) (some : before ++ rest ≠ []) :
    Eldest (before ++ rest) (nextArpIndex before.length eldest oldage rest) := by
  induction rest generalizing before eldest oldage with
  | nil =>
      rw [List.append_nil] at some ⊢
      rcases passing.chosen with ⟨none, -⟩ | ⟨entry, here, age⟩
      · exact absurd none some
      · exact .oldest passing.full here fun other member => age ▸ passing.ages other member
  | cons entry rest ih =>
      rw [nextArpIndex]
      cases valid : entry.valid with
      | false =>
          rw [if_pos (by simp)]
          exact .free (by rw [List.getElem?_append_right (Nat.le_refl _)]; simp) valid
      | true =>
          have next := passing.next valid
          have whole : before ++ entry :: rest = before ++ [entry] ++ rest := by simp
          have length : before.length + 1 = (before ++ [entry]).length := by simp
          rw [if_neg (by simp), whole, length]
          split_ifs at next ⊢ with elder
          · exact ih next (by simp)
          · exact ih next (by simp)

theorem getNextArpIndex_eldest (some : table ≠ []) : Eldest table (getNextArpIndex table) :=
  nextArpIndex_eldest table ⟨by simp, by simp, .inl ⟨rfl, rfl, rfl⟩⟩ some

/-! ### The table apart from the rest of the memory -/

/-- `arp_lookup` does not scan for what the router takes. -/
def Routed (routerMacAddr : BitVec 64) (ipaddr : BitVec 32) : Prop :=
  ((ipaddr ^^^ defaultip) &&& lclnetmask ≠ 0 ∨ ipaddr = defaultRouterip) ∧ routerMacAddr ≠ 0

instance (routerMacAddr : BitVec 64) (ipaddr : BitVec 32) :
    Decidable (Routed routerMacAddr ipaddr) :=
  inferInstanceAs (Decidable (_ ∧ _))

def lookupEntry (routerMacAddr : BitVec 64) (table : List ArpTableEntry) (ipaddr : BitVec 32) :
    List ArpTableEntry × Option (BitVec 64) :=
  if Routed routerMacAddr ipaddr then (table, some routerMacAddr) else arpScan ipaddr 0 table

/-- The entry of an address that has moved. -/
def moveEntry (table : List ArpTableEntry) (ipaddr : BitVec 32) (mac : BitVec 64) :
    List ArpTableEntry :=
  match table.findIdx? fun entry => entry.valid && entry.ipaddr == ipaddr with
  | none => table
  | some eid => table.modify eid fun entry => { entry with age := 0, mac }

def addEntry (stale : Nat) (routerMacAddr : BitVec 64) (table : List ArpTableEntry)
    (ipaddr : BitVec 32) (mac : BitVec 64) : List ArpTableEntry :=
  if ipaddr = defaultip ∨ ipaddr = defaultRouterip then table
  else
    let (scanned, found) := lookupEntry routerMacAddr table ipaddr
    match found with
    | some lclmac => if mac = lclmac then scanned else moveEntry scanned ipaddr mac
    | none =>
        (scanned.modify (getNextArpIndex scanned) fun entry =>
          { entry with age := 0, ipaddr, mac }).modify stale fun entry =>
            { entry with valid := true }

theorem txEthpkt_tables (board : Board) (world : World) (pkt : Nat) (ethtype : BitVec 32)
    (mac : BitVec 64) : (txEthpkt board world pkt ethtype mac).arpTable = world.arpTable ∧
      (txEthpkt board world pkt ethtype mac).routerMacAddr = world.routerMacAddr := by
  simp only [txEthpkt, txPkt, txBusy]
  split_ifs
  · split
    · exact ⟨rfl, rfl⟩
    · split_ifs <;> exact ⟨rfl, rfl⟩
  · exact ⟨rfl, rfl⟩

theorem arpLookup_tables (board : Board) (world : World) (ipaddr : BitVec 32) :
    (arpLookup board world ipaddr).1.arpTable =
        (lookupEntry world.routerMacAddr world.arpTable ipaddr).1 ∧
      (arpLookup board world ipaddr).2 =
        (lookupEntry world.routerMacAddr world.arpTable ipaddr).2 ∧
      (arpLookup board world ipaddr).1.routerMacAddr = world.routerMacAddr := by
  by_cases routed : Routed world.routerMacAddr ipaddr
  · rw [lookupEntry, if_pos routed]
    unfold Routed at routed
    rw [arpLookup, if_pos routed]
    exact ⟨rfl, rfl, rfl⟩
  · rw [lookupEntry, if_neg routed]
    unfold Routed at routed
    rw [arpLookup, if_neg routed]
    rcases arpScan ipaddr 0 world.arpTable with ⟨scanned, found⟩
    cases found with
    | some mac => exact ⟨rfl, rfl, rfl⟩
    | none =>
        obtain ⟨kept, router⟩ := txEthpkt_tables board _ _ ethertypeArp 0xffffffffffff
        exact ⟨kept, rfl, router⟩

theorem arpTableAdd_table (board : Board) (world : World) (ipaddr : BitVec 32) (mac : BitVec 64) :
    (arpTableAdd board world ipaddr mac).arpTable =
      addEntry board.staleEid world.routerMacAddr world.arpTable ipaddr mac := by
  unfold arpTableAdd addEntry
  by_cases own : ipaddr = defaultip
  · rw [if_pos own, if_pos (.inl own)]
  by_cases router : ipaddr = defaultRouterip
  · rw [if_neg own, if_pos router, if_pos (.inr router)]
  rw [if_neg own, if_neg router, if_neg (by tauto)]
  obtain ⟨kept, answer, -⟩ := arpLookup_tables board world ipaddr
  generalize arpLookup board world ipaddr = result at kept answer ⊢
  obtain ⟨searched, found⟩ := result
  generalize lookupEntry world.routerMacAddr world.arpTable ipaddr = looked at kept answer ⊢
  obtain ⟨scanned, same⟩ := looked
  dsimp only at kept answer ⊢
  subst kept answer
  cases found with
  | none => rfl
  | some lclmac =>
      dsimp only
      split_ifs
      · rfl
      · unfold moveEntry
        cases searched.arpTable.findIdx? fun entry => entry.valid && entry.ipaddr == ipaddr <;> rfl

/-! ### One call -/

/-- An entry in use holds these addresses. -/
def Holds (table : List ArpTableEntry) (slot : Nat) (ipaddr : BitVec 32) (mac : BitVec 64) : Prop :=
  ∃ entry, table[slot]? = some entry ∧ entry.valid = true ∧ entry.ipaddr = ipaddr ∧ entry.mac = mac

theorem modify_here {slot : Nat} {entry : ArpTableEntry} (here : table[slot]? = some entry)
    (change : ArpTableEntry → ArpTableEntry) :
    (table.modify slot change)[slot]? = some (change entry) := by
  simp [here]

theorem modify_elsewhere {slot other : Nat} (apart : other ≠ slot)
    (change : ArpTableEntry → ArpTableEntry) :
    (table.modify other change)[slot]? = table[slot]? := by
  simp [apart]

theorem moveEntry_at (table : List ArpTableEntry) (ipaddr : BitVec 32) (mac : BitVec 64)
    {slot : Nat} {entry : ArpTableEntry} (here : table[slot]? = some entry) :
    (moveEntry table ipaddr mac)[slot]? = some entry ∨
      entry.valid = true ∧ entry.ipaddr = ipaddr ∧
        (moveEntry table ipaddr mac)[slot]? = some { entry with age := 0, mac } := by
  unfold moveEntry
  cases found : table.findIdx? fun entry => entry.valid && entry.ipaddr == ipaddr with
  | none => exact .inl here
  | some eid =>
      by_cases same : eid = slot
      · subst same
        obtain ⟨inside, hit, -⟩ := List.findIdx?_eq_some_iff_getElem.mp found
        have entry' := here
        rw [List.getElem?_eq_getElem inside, Option.some.injEq] at entry'
        rw [entry', Bool.and_eq_true, beq_iff_eq] at hit
        exact .inr ⟨hit.1, hit.2, modify_here here _⟩
      · exact .inl ((modify_elsewhere same _).trans here)

theorem length_moveEntry (table : List ArpTableEntry) (ipaddr : BitVec 32) (mac : BitVec 64) :
    (moveEntry table ipaddr mac).length = table.length := by
  unfold moveEntry
  split
  · rfl
  · exact List.length_modify ..

/-- The entry of the address itself. -/
theorem moveEntry_holds (distinct : Distinct table) {slot : Nat} {entry : ArpTableEntry}
    (here : table[slot]? = some entry) (valid : entry.valid = true) (mac : BitVec 64) :
    (moveEntry table entry.ipaddr mac)[slot]? = some { entry with age := 0, mac } := by
  unfold moveEntry
  cases found : table.findIdx? fun other => other.valid && other.ipaddr == entry.ipaddr with
  | none =>
      have absent := List.findIdx?_eq_none_iff.mp found entry (List.mem_of_getElem? here)
      simp [valid] at absent
  | some eid =>
      obtain ⟨inside, hit, -⟩ := List.findIdx?_eq_some_iff_getElem.mp found
      rw [Bool.and_eq_true, beq_iff_eq] at hit
      have same := distinct eid slot _ entry (List.getElem?_eq_getElem inside) here hit.1 valid hit.2
      subst same
      exact modify_here here _

/-- The entry that takes a new address, at the slot of the eldest. -/
theorem inserted (scanned : List ArpTableEntry) (ipaddr : BitVec 32) (mac : BitVec 64) {slot : Nat}
    {entry : ArpTableEntry} (here : scanned[slot]? = some entry) :
    let after := (scanned.modify slot fun entry => { entry with age := 0, ipaddr, mac }).modify slot
      fun entry => { entry with valid := true }
    after[slot]? = some ⟨true, 0, ipaddr, mac⟩ ∧
      ∀ other, other ≠ slot → after[other]? = scanned[other]? := by
  intro after
  refine ⟨modify_here (modify_here here _) _, fun other apart => ?_⟩
  exact (modify_elsewhere apart.symm _).trans (modify_elsewhere apart.symm _)

/-- What becomes of the entry at a slot when `ipaddr` is added. -/
def Keeps (table after : List ArpTableEntry) (evicted slot : Nat) (entry : ArpTableEntry) : Prop :=
  Holds after slot entry.ipaddr entry.mac ∨ entry.Expired ∨
    slot = evicted ∧ ∀ other ∈ table, other.valid = true ∧ other.age + 1 ≤ entry.age + 1

structure Added (table after : List ArpTableEntry) (ipaddr : BitVec 32) (mac : BitVec 64) : Prop where
  present : ∃ slot, Holds after slot ipaddr mac
  others : ∃ evicted, ∀ slot entry, table[slot]? = some entry → entry.valid = true →
    entry.ipaddr ≠ ipaddr → Keeps table after evicted slot entry

/-- An entry the scan has passed, where nothing is written. -/
theorem keeps_of_same {scanned after : List ArpTableEntry} {evicted slot : Nat}
    {entry : ArpTableEntry} (passed : List.Forall₂ Passed table scanned)
    (here : table[slot]? = some entry) (valid : entry.valid = true)
    (same : ∀ later, scanned[slot]? = some later → later.ipaddr = entry.ipaddr →
      after[slot]? = some later) : Keeps table after evicted slot entry := by
  obtain ⟨later, there, kept⟩ := Passed.forward passed here
  rcases kept.valid valid with alive | expired
  · exact .inl ⟨later, same later there kept.ipaddr, alive, kept.ipaddr, kept.mac⟩
  · exact .inr (.inl expired)

theorem added_found {lclmac : BitVec 64} (distinct : Distinct table)
    (found : (arpScan ipaddr 0 table).2 = some lclmac) :
    Added table (if mac = lclmac then (arpScan ipaddr 0 table).1
      else moveEntry (arpScan ipaddr 0 table).1 ipaddr mac) ipaddr mac := by
  have passed := arpScan_passed ipaddr 0 table
  obtain ⟨slot, entry, -, valid, rfl, held, there⟩ := arpScan_found found
  split_ifs with same
  · refine ⟨⟨slot, _, there, valid, rfl, held.trans same.symm⟩, 0, ?_⟩
    intro other hit here alive apart
    exact keeps_of_same passed here alive fun later is _ => is
  · have moved := moveEntry_holds (distinct.passed passed) there valid mac
    refine ⟨⟨slot, _, moved, valid, rfl, rfl⟩, 0, ?_⟩
    intro other hit here alive apart
    refine keeps_of_same passed here alive fun later is kept => ?_
    rcases moveEntry_at _ entry.ipaddr mac is with stays | ⟨-, taken, -⟩
    · exact stays
    · exact absurd (kept.symm.trans taken) apart

theorem added_missed (some : table ≠ []) (missed : (arpScan ipaddr 0 table).2 = none) :
    Added table (((arpScan ipaddr 0 table).1.modify (getNextArpIndex (arpScan ipaddr 0 table).1)
      fun entry => { entry with age := 0, ipaddr, mac }).modify
        (getNextArpIndex (arpScan ipaddr 0 table).1) fun entry => { entry with valid := true })
      ipaddr mac := by
  have passed := arpScan_passed ipaddr 0 table
  have older := arpScan_missed missed
  generalize (arpScan ipaddr 0 table).1 = scanned at passed older ⊢
  have nonempty : scanned ≠ [] := by
    intro empty
    rw [empty] at passed
    cases passed
    exact some rfl
  have eldest := getNextArpIndex_eldest nonempty
  generalize getNextArpIndex scanned = eid at eldest ⊢
  have age : ∀ (slot : Nat) (entry later : ArpTableEntry), table[slot]? = .some entry →
      scanned[slot]? = .some later → entry.valid = true → later.age = entry.age + 1 := by
    intro slot entry later was is valid
    rcases forall₂_at older slot with ⟨none, -⟩ | ⟨left, right, had, has, grown⟩
    · rw [none] at was
      cases was
    · rw [had, Option.some.injEq] at was
      rw [has, Option.some.injEq] at is
      subst was is
      exact grown valid
  obtain ⟨chosen, there⟩ : ∃ chosen, scanned[eid]? = .some chosen := by
    cases eldest with
    | free there => exact ⟨_, there⟩
    | oldest _ there => exact ⟨_, there⟩
  obtain ⟨new, rest⟩ := inserted scanned ipaddr mac there
  refine ⟨⟨eid, _, new, rfl, rfl, rfl⟩, eid, fun slot entry here valid apart => ?_⟩
  by_cases same : slot = eid
  · subst same
    obtain ⟨later, is, kept⟩ := Passed.forward passed here
    cases eldest with
    | @free free taken unused =>
        rw [is, Option.some.injEq] at taken
        rw [← taken] at unused
        rcases kept.valid valid with alive | expired
        · rw [unused] at alive
          cases alive
        · exact .inr (.inl expired)
    | @oldest oldest full taken ages =>
        refine .inr (.inr ⟨rfl, fun other member => ?_⟩)
        obtain ⟨index, inside⟩ := List.getElem?_of_mem member
        obtain ⟨aged, was, passes⟩ := Passed.forward passed inside
        have alive := full aged (List.mem_of_getElem? was)
        have valid' := passes.invalid alive
        rw [is, Option.some.injEq] at taken
        have bound := ages aged (List.mem_of_getElem? was)
        rw [← taken, age _ _ _ inside was valid', age _ _ _ here is valid] at bound
        exact ⟨valid', bound⟩
  · exact keeps_of_same passed here valid fun later is _ => (rest slot same).trans is

theorem lookupEntry_near (routerMacAddr : BitVec 64) (table : List ArpTableEntry)
    (router : ipaddr ≠ defaultRouterip) (near : (ipaddr ^^^ defaultip) &&& lclnetmask = 0) :
    lookupEntry routerMacAddr table ipaddr = arpScan ipaddr 0 table := by
  refine if_neg ?_
  rintro ⟨far | same, -⟩
  · exact far near
  · exact router same

theorem Holds.found {world : World} {slot : Nat} (holds : Holds world.arpTable slot ipaddr mac)
    (distinct : Distinct world.arpTable) (router : ipaddr ≠ defaultRouterip)
    (near : (ipaddr ^^^ defaultip) &&& lclnetmask = 0) (board : Board) :
    (arpLookup board world ipaddr).2 = some mac := by
  obtain ⟨entry, here, valid, rfl, rfl⟩ := holds
  rw [(arpLookup_tables board world entry.ipaddr).2.1, lookupEntry_near _ _ router near]
  exact distinct.scan_eq here valid 0

theorem addEntry_added {stale : Nat} {routerMacAddr : BitVec 64} (distinct : Distinct table)
    (some : table ≠ []) (own : ipaddr ≠ defaultip) (router : ipaddr ≠ defaultRouterip)
    (near : (ipaddr ^^^ defaultip) &&& lclnetmask = 0)
    (pointed : (arpScan ipaddr 0 table).2 = none →
      stale = getNextArpIndex (arpScan ipaddr 0 table).1) :
    Added table (addEntry stale routerMacAddr table ipaddr mac) ipaddr mac := by
  unfold addEntry
  rw [if_neg (by tauto), lookupEntry_near routerMacAddr table router near]
  cases found : (arpScan ipaddr 0 table).2 with
  | some lclmac =>
      have added := @added_found table ipaddr mac lclmac distinct found
      simpa only [found] using added
  | none =>
      obtain rfl := pointed found
      simpa only [found] using @added_missed table ipaddr mac some found

theorem Distinct.moved (distinct : Distinct table) (ipaddr : BitVec 32) (mac : BitVec 64) :
    Distinct (moveEntry table ipaddr mac) := by
  refine distinct.of_backward fun slot entry here => ?_
  have inside := (List.getElem?_eq_some_iff.mp here).1
  rw [length_moveEntry] at inside
  refine ⟨table[slot], List.getElem?_eq_getElem inside, ?_⟩
  rcases moveEntry_at table ipaddr mac (List.getElem?_eq_getElem inside) with same | ⟨-, -, same⟩
  · rw [here, Option.some.injEq] at same
    exact ⟨by rw [same], by rw [same]; exact id⟩
  · rw [here, Option.some.injEq] at same
    exact ⟨by rw [same], by rw [same]; exact id⟩

theorem Distinct.inserted {slot : Nat} {entry : ArpTableEntry} (distinct : Distinct table)
    (here : table[slot]? = some entry)
    (absent : ∀ other ∈ table, other.valid = true → other.ipaddr ≠ ipaddr) :
    Distinct ((table.modify slot fun entry => { entry with age := 0, ipaddr, mac }).modify slot
      fun entry => { entry with valid := true }) := by
  obtain ⟨new, rest⟩ := Net.inserted table ipaddr mac here
  intro first second left right is there leftValid rightValid same
  by_cases one : first = slot
  · by_cases two : second = slot
    · rw [one, two]
    · rw [one, new, Option.some.injEq] at is
      rw [rest second two] at there
      rw [← is] at same
      exact absurd same.symm (absent right (List.mem_of_getElem? there) rightValid)
  · rw [rest first one] at is
    by_cases two : second = slot
    · rw [two, new, Option.some.injEq] at there
      rw [← there] at same
      exact absurd same (absent left (List.mem_of_getElem? is) leftValid)
    · rw [rest second two] at there
      exact distinct first second left right is there leftValid rightValid same

/-- When an entry is inserted, the flag set is its own. -/
def Pointed (stale : Nat) (routerMacAddr : BitVec 64) (table : List ArpTableEntry)
    (ipaddr : BitVec 32) : Prop :=
  ipaddr ≠ defaultip → ipaddr ≠ defaultRouterip →
    (lookupEntry routerMacAddr table ipaddr).2 = none →
      stale = getNextArpIndex (lookupEntry routerMacAddr table ipaddr).1

instance (stale : Nat) (routerMacAddr : BitVec 64) (table : List ArpTableEntry)
    (ipaddr : BitVec 32) : Decidable (Pointed stale routerMacAddr table ipaddr) :=
  inferInstanceAs (Decidable (_ → _ → _ → _))

theorem lookupEntry_passed (routerMacAddr : BitVec 64) (table : List ArpTableEntry)
    (ipaddr : BitVec 32) :
    List.Forall₂ Passed table (lookupEntry routerMacAddr table ipaddr).1 ∧
      ((lookupEntry routerMacAddr table ipaddr).2 = none →
        ∀ entry ∈ table, entry.valid = true → entry.ipaddr ≠ ipaddr) := by
  unfold lookupEntry
  split_ifs with routed
  · exact ⟨List.forall₂_same.mpr fun entry _ => .refl entry, fun none => nomatch none⟩
  · exact ⟨arpScan_passed ipaddr 0 table, arpScan_none_iff.mp⟩

theorem addEntry_distinct {stale : Nat} {routerMacAddr : BitVec 64} (distinct : Distinct table)
    (some : table ≠ []) (pointed : Pointed stale routerMacAddr table ipaddr) :
    Distinct (addEntry stale routerMacAddr table ipaddr mac) ∧
      addEntry stale routerMacAddr table ipaddr mac ≠ [] := by
  unfold addEntry
  split_ifs with special
  · exact ⟨distinct, some⟩
  obtain ⟨own, router⟩ := not_or.mp special
  have points := pointed own router
  obtain ⟨passed, absent⟩ := lookupEntry_passed routerMacAddr table ipaddr
  have scanned := distinct.passed passed
  have size := passed.length_eq
  generalize lookupEntry routerMacAddr table ipaddr = looked at passed absent points scanned size ⊢
  obtain ⟨after, found⟩ := looked
  have nonempty : after ≠ [] := by
    intro empty
    rw [empty] at size
    exact some (List.length_eq_zero_iff.mp size)
  cases found with
  | some lclmac =>
      dsimp only
      split_ifs
      · exact ⟨scanned, nonempty⟩
      · refine ⟨scanned.moved ipaddr mac, fun empty => nonempty (List.length_eq_zero_iff.mp ?_)⟩
        rw [← length_moveEntry after ipaddr mac, empty]
        rfl
  | none =>
      obtain rfl := points rfl
      have missing : ∀ other ∈ after, other.valid = true → other.ipaddr ≠ ipaddr := by
        intro other member valid
        obtain ⟨slot, here⟩ := List.getElem?_of_mem member
        obtain ⟨before, was, kept⟩ := Passed.backward passed here
        rw [kept.ipaddr]
        exact absent rfl before (List.mem_of_getElem? was) (kept.invalid valid)
      obtain ⟨entry, here⟩ : ∃ entry, after[getNextArpIndex after]? = .some entry := by
        cases getNextArpIndex_eldest nonempty with
        | free there => exact ⟨_, there⟩
        | oldest _ there => exact ⟨_, there⟩
      refine ⟨scanned.inserted here missing, fun empty => nonempty (List.length_eq_zero_iff.mp ?_)⟩
      have sizes := congrArg List.length empty
      simpa using sizes

/-! ### Runs -/

/-- One call: what the board answers during it, and the arguments. -/
structure ArpCall where
  board : Board
  ipaddr : BitVec 32
  mac : BitVec 64

def arpTableAdds (world : World) (calls : List ArpCall) : World :=
  calls.foldl (fun world call => arpTableAdd call.board world call.ipaddr call.mac) world

theorem arpTableAdds_append (world : World) (first second : List ArpCall) :
    arpTableAdds world (first ++ second) = arpTableAdds (arpTableAdds world first) second :=
  List.foldl_append ..

theorem arpTableAdds_one (world : World) (call : ArpCall) :
    arpTableAdds world [call] = arpTableAdd call.board world call.ipaddr call.mac :=
  rfl

/-- Every entry inserted is the one marked. -/
def PointedRun : World → List ArpCall → Prop
  | _, [] => True
  | world, call :: rest =>
      Pointed call.board.staleEid world.routerMacAddr world.arpTable call.ipaddr ∧
        PointedRun (arpTableAdd call.board world call.ipaddr call.mac) rest

/-- `init_arp_table`. -/
def initArpTable (world : World) : World :=
  { world with arpTable := world.arpTable.map fun entry => { entry with valid := false } }

theorem initArpTable_distinct (world : World) : Distinct (initArpTable world).arpTable := by
  intro first second left right here there leftValid
  have member := List.mem_of_getElem? here
  obtain ⟨entry, -, rfl⟩ := List.mem_map.mp member
  cases leftValid

theorem arpTableAdds_distinct {world : World} {calls : List ArpCall}
    (distinct : Distinct world.arpTable) (some : world.arpTable ≠ [])
    (pointed : PointedRun world calls) :
    Distinct (arpTableAdds world calls).arpTable ∧ (arpTableAdds world calls).arpTable ≠ [] := by
  induction calls generalizing world with
  | nil => exact ⟨distinct, some⟩
  | cons call rest ih =>
      obtain ⟨now, later⟩ := pointed
      obtain ⟨next, nonempty⟩ := @addEntry_distinct _ _ call.mac _ _ distinct some now
      rw [← arpTableAdd_table] at next nonempty
      exact ih next nonempty later

/-- A call to a board that is never busy. -/
def plainCall (stale : Nat) (host : BitVec 8) : ArpCall where
  board := { txBusy := fun _ => false, mallocBytes := fun _ => 0, staleEid := stale }
  ipaddr := 0xc0a80f00 ||| host.setWidth 32
  mac := host.setWidth 64

/-- After any run of `arp_table_add`, one more. -/
theorem arp_table_add_kept {world : World} (entries : world.arpTable.length = 8)
    {calls : List ArpCall} (pointed : PointedRun (initArpTable world) calls) {call : ArpCall}
    (own : call.ipaddr ≠ defaultip) (router : call.ipaddr ≠ defaultRouterip)
    (near : (call.ipaddr ^^^ defaultip) &&& lclnetmask = 0)
    (last : Pointed call.board.staleEid (arpTableAdds (initArpTable world) calls).routerMacAddr
      (arpTableAdds (initArpTable world) calls).arpTable call.ipaddr) :
    let before := arpTableAdds (initArpTable world) calls
    let after := arpTableAdd call.board before call.ipaddr call.mac
    (∀ board, (arpLookup board after call.ipaddr).2 = some call.mac) ∧
      (∃ evicted, ∀ slot entry, before.arpTable[slot]? = some entry → entry.valid = true →
        entry.ipaddr ≠ call.ipaddr → Keeps before.arpTable after.arpTable evicted slot entry) ∧
      (∀ slot ipaddr mac, Holds after.arpTable slot ipaddr mac → ipaddr ≠ defaultRouterip →
        (ipaddr ^^^ defaultip) &&& lclnetmask = 0 →
          ∀ board, (arpLookup board after ipaddr).2 = some mac) ∧
      Distinct after.arpTable := by
  intro before after
  have some : (initArpTable world).arpTable ≠ [] := by
    intro empty
    have size := congrArg List.length empty
    rw [initArpTable, List.length_map, entries] at size
    cases size
  obtain ⟨distinct, nonempty⟩ := arpTableAdds_distinct (initArpTable_distinct world) some pointed
  have table : after.arpTable = addEntry call.board.staleEid before.routerMacAddr before.arpTable
      call.ipaddr call.mac := arpTableAdd_table ..
  have points := last own router
  rw [lookupEntry_near _ _ router near] at points
  have added := @addEntry_added _ _ call.mac call.board.staleEid before.routerMacAddr distinct
    nonempty own router near points
  have apart := (@addEntry_distinct _ _ call.mac _ _ distinct nonempty last).1
  rw [← table] at added apart
  obtain ⟨slot, holds⟩ := added.present
  exact ⟨holds.found apart router near, added.others,
    fun other ipaddr mac holds router near => holds.found apart router near, apart⟩

/-- The third of three stations. -/
theorem third_station_found :
    (arpLookup (plainCall 2 4).board
      (arpTableAdd (plainCall 2 4).board
        (arpTableAdds (initArpTable World.empty) [plainCall 0 2, plainCall 1 3])
        (plainCall 2 4).ipaddr (plainCall 2 4).mac) (plainCall 2 4).ipaddr).2 = some 4 :=
  (@arp_table_add_kept World.empty rfl [plainCall 0 2, plainCall 1 3]
    ⟨by decide, by decide, trivial⟩ (plainCall 2 4) (by decide) (by decide) (by decide)
    (by decide)).1 (plainCall 2 4).board

/-! ### Entries that age together -/

/-- Four stations; then the first and the second are heard again. -/
def settingUp : List ArpCall :=
  [plainCall 0 2, plainCall 1 3, plainCall 2 4, plainCall 3 5, plainCall 0 2, plainCall 0 3]

def entryOf (age : BitVec 32) (host : BitVec 8) : ArpTableEntry :=
  ⟨true, age, 0xc0a80f00 ||| host.setWidth 32, host.setWidth 64⟩

/-- The first and the third are of one age, the second a call younger. -/
def ageing (age : BitVec 32) : List ArpTableEntry :=
  [entryOf (age + 1) 2, entryOf age 3, entryOf (age + 1) 4, entryOf 0 5, {}, {}, {}, {}]

theorem settingUp_table :
    (arpTableAdds (initArpTable World.empty) settingUp).arpTable = ageing 0 := by
  decide +kernel

theorem plainCall_table (world : World) :
    (arpTableAdds world [plainCall 0 5]).arpTable =
      addEntry 0 world.routerMacAddr world.arpTable 0xc0a80f05 5 :=
  arpTableAdd_table (plainCall 0 5).board world (plainCall 0 5).ipaddr (plainCall 0 5).mac

/-- A call that finds its entry as it was added. -/
theorem addEntry_heard (routerMacAddr : BitVec 64) (scanned : List ArpTableEntry)
    (found : arpScan 0xc0a80f05 0 table = (scanned, some 5)) :
    addEntry 0 routerMacAddr table 0xc0a80f05 5 = scanned := by
  unfold addEntry
  rw [if_neg (by decide), lookupEntry_near _ _ (by decide) (by decide), found]
  rfl

theorem ageing_step (world : World) {age : BitVec 32} (young : age.toNat < 0xffff)
    (table : world.arpTable = ageing age) :
    (arpTableAdds world [plainCall 0 5]).arpTable = ageing (age + 1) := by
  have next : (age + 1#32).toNat = age.toNat + 1 := by
    rw [BitVec.toNat_add]
    exact Nat.mod_eq_of_lt (Nat.lt_of_lt_of_le (Nat.succ_lt_succ young) (by decide))
  have elder : 0#32 < age + 1#32 := by
    rw [BitVec.lt_def, next]
    exact Nat.succ_pos _
  have younger : ¬age + 1#32 < age := by
    rw [BitVec.lt_def, next]
    exact Nat.not_lt.mpr (Nat.le_succ _)
  have alive : (65536#32).sle (age + 1#32) = false := by
    rw [BitVec.sle_eq_decide, BitVec.toInt_eq_toNat_of_lt (x := age + 1#32) (by omega), next]
    simp
    omega
  rw [plainCall_table, table]
  refine addEntry_heard _ _ ?_
  simp [ageing, entryOf, arpScan, elder, younger, alive]

theorem ageing_run (world : World) (calls : Nat) (young : calls ≤ 0xffff)
    (table : world.arpTable = ageing 0) :
    (arpTableAdds world (List.replicate calls (plainCall 0 5))).arpTable =
      ageing (BitVec.ofNat 32 calls) := by
  induction calls with
  | zero => exact table
  | succ calls ih =>
      have before := ih (Nat.le_of_succ_le young)
      rw [List.replicate_succ', arpTableAdds_append]
      have small : (BitVec.ofNat 32 calls).toNat < 0xffff := by
        rw [BitVec.toNat_ofNat]
        exact Nat.lt_of_le_of_lt (Nat.mod_le _ _) young
      rw [ageing_step _ small before, BitVec.ofNat_add]
      rfl

/-- A run after which the next call gives up two entries, the second and the third. -/
def longRun : List ArpCall :=
  settingUp ++ List.replicate 0xffff (plainCall 0 5) ++ [plainCall 0 5]

theorem longRun_table : (arpTableAdds (initArpTable World.empty) longRun).arpTable =
    { entryOf 0x10001 2 with valid := false } ::
      [entryOf 0x10000 3, entryOf 0x10001 4, entryOf 0 5, {}, {}, {}, {}] := by
  rw [longRun, arpTableAdds_append, plainCall_table, arpTableAdds_append,
    ageing_run _ 0xffff (Nat.le_refl _) settingUp_table]
  exact addEntry_heard _ _ (by decide)

theorem longRun_then : (arpTableAdd (plainCall 0 5).board
    (arpTableAdds (initArpTable World.empty) longRun) (plainCall 0 5).ipaddr
    (plainCall 0 5).mac).arpTable =
      [{ entryOf 0x10001 2 with valid := false }, { entryOf 0x10001 3 with valid := false },
        { entryOf 0x10002 4 with valid := false }, entryOf 0 5, {}, {}, {}, {}] := by
  rw [← arpTableAdds_one, plainCall_table, longRun_table]
  exact addEntry_heard _ _ (by decide)

/-- Neither is evicted: the look-up inside the call gives both of them up. -/
theorem two_entries_lost :
    let before := arpTableAdds (initArpTable World.empty) longRun
    let after := arpTableAdd (plainCall 0 5).board before (plainCall 0 5).ipaddr (plainCall 0 5).mac
    Holds before.arpTable 1 0xc0a80f03 3 ∧ Holds before.arpTable 2 0xc0a80f04 4 ∧
      ∀ entry ∈ after.arpTable, entry.valid = true →
        entry.ipaddr ≠ 0xc0a80f03 ∧ entry.ipaddr ≠ 0xc0a80f04 := by
  dsimp only
  rw [longRun_then, longRun_table]
  exact ⟨⟨entryOf 0x10000 3, rfl, rfl, rfl, rfl⟩, ⟨entryOf 0x10001 4, rfl, rfl, rfl, rfl⟩, by decide⟩

end ZipVersa.Net
