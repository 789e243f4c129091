import ZipVersa.Enet.Oversized

/-! The length a packet is reported with. It is read from the running address of
`rxewrite` in the clock `n_eop` shows, when that address has counted one byte
more than were stored. -/

set_option autoImplicit false

namespace ZipVersa.Enet

open Lib

namespace Receiver

/-- What the software can tell of a clock: a byte stored in the buffer, a packet
reported with its length. -/
inductive Event where
  | stored
  | reported (nRxLen : Nat)
  deriving DecidableEq, Repr

variable {aw : Nat} {settings : Settings} {frame : List Byte} {taken : Nat} {rx : Receiver aw}
  {clock : RxClock} {clocks : List RxClock}

def rises (rx : Receiver aw) (clock : RxClock) : List Event :=
  if !rx.nRxValid && (rx.step clock).nRxValid then [.reported (rx.step clock).nRxLen.toNat] else []

def events (rx : Receiver aw) (clock : RxClock) : List Event :=
  (rx.stores clock).map (fun _ => .stored) ++ rx.rises clock

/-- The packet is handed to the software. -/
def Accepts (rx : Receiver aw) (clocks : List RxClock) : Prop :=
  ∃ nRxLen, .reported nRxLen ∈ observed Receiver.step events rx clocks

/-- A packet is reported with the number of its bytes in the buffer, less the
four of the check sequence where the hardware checks it. -/
def ReportsLength (settings : Settings) (rx : Receiver aw) (clocks : List RxClock) : Prop :=
  ∀ before nRxLen after,
    observed Receiver.step events rx clocks = before ++ .reported nRxLen :: after →
    nRxLen + (if settings.hwCrcOn then 4 else 0) = before.count .stored

/-- Nothing is reported. -/
theorem not_accepts {count : Nat}
    (seen : observed Receiver.step events rx clocks = List.replicate count .stored) :
    ¬ rx.Accepts clocks := by
  rintro ⟨nRxLen, member⟩
  rw [seen] at member
  cases (List.mem_replicate.mp member).2

/-- One packet is reported. -/
theorem reportsLength_iff {count nRxLen : Nat}
    (seen : observed Receiver.step events rx clocks =
      List.replicate count .stored ++ [.reported nRxLen]) :
    ReportsLength settings rx clocks ↔
      nRxLen + (if settings.hwCrcOn then 4 else 0) = count := by
  unfold ReportsLength
  rw [seen]
  constructor
  · intro right
    have length := right (List.replicate count .stored) nRxLen [] rfl
    rwa [List.count_replicate_self] at length
  · rintro right before other after split
    rcases List.append_eq_append_iff.mp split with ⟨middle, rfl, last⟩ | ⟨middle, first, last⟩
    · obtain ⟨rfl, same⟩ : middle = [] ∧ Event.reported nRxLen = .reported other := by
        cases middle with
        | nil => exact ⟨rfl, (List.cons.inj last).1⟩
        | cons event middle => simp at last
      rw [List.append_nil, List.count_replicate_self, ← Event.reported.inj same]
      exact right
    · cases middle with
      | nil =>
          rw [List.append_nil] at first
          rw [← first, List.count_replicate_self, Event.reported.inj (List.cons.inj last).1]
          exact right
      | cons event middle =>
          have member : event ∈ List.replicate count Event.stored := by
            rw [first]
            exact List.mem_append_right _ (.head _)
          rw [(List.mem_replicate.mp member).2] at last
          cases (List.cons.inj last).1

/-! ### Clocks that report nothing -/

/-- While the valid flag stays low the events are the stores. -/
theorem events_of_low
    (low : ∀ shown ∈ observed Receiver.step (fun rx _ => [rx.nRxValid]) rx clocks, shown = false)
    (free : (clocked Receiver.step rx clocks).nRxValid = false) :
    observed Receiver.step events rx clocks =
      List.replicate (observed Receiver.step stores rx clocks).length .stored := by
  induction clocks generalizing rx with
  | nil => rfl
  | cons clock rest ih =>
      have later : ∀ shown ∈ observed Receiver.step (fun rx _ => [rx.nRxValid]) (rx.step clock) rest,
          shown = false := fun shown member => low shown (.tail _ member)
      have next : (rx.step clock).nRxValid = false := by
        cases rest with
        | nil => exact free
        | cons _ _ => exact later _ (.head _)
      have calm : rx.rises clock = [] := by simp [rises, next]
      rw [observed, ih later free, events, calm, List.append_nil, List.map_const', observed,
        List.length_append, List.replicate_add]

theorem written_length {count : Nat} {stored : List (BitVec (aw + 2))}
    (places : places aw (written settings frame 0) ++ stored = Receiver.places aw count) :
    stored.length = count := by
  have length := congrArg List.length places
  simpa [Receiver.places, written] using length

/-- After the end of the packet nothing happens. -/
theorem Carrying.done (carrying : rx.Carrying settings frame taken)
    (some : 0 < frame.length) (sound : rx.nRxNetErr = false) (off : frame.length ≤ taken)
    (past : settings.delay + 1 + (settings.stored frame).length < taken)
    (under : ∀ clock ∈ clocks, clock.Under settings) (line : OnLine frame taken clocks) :
    observed Receiver.step events rx clocks = [] := by
  induction clocks generalizing rx taken with
  | nil => rfl
  | cons clock rest ih =>
      obtain ⟨offers, online⟩ := line
      have silent := offers.idle off
      have empty : rx.wr.oV = false := Bool.eq_false_iff.mpr fun shown => by
        have when := carrying.wr_oV.mp shown
        omega
      have open_ : rx.nEop = false := Bool.eq_false_iff.mpr fun ends => by
        have when := (carrying.nEop_iff sound).mp ends
        omega
      have next := carrying.step (under clock (.head _)) some offers.brings sound
      have calm : rx.events clock = [] := by
        cases valid : rx.nRxValid <;> simp [events, stores, rises, empty, open_, valid,
          Receiver.step]
      rw [observed, calm, List.nil_append]
      exact ih next (by simp [Receiver.step, silent]) (by omega) (by omega)
        (fun other member => under other (.tail _ member)) online

/-- An idle receiver while the rest of a refused frame is on the line. -/
theorem Idle.refused_step (idle : rx.Idle settings)
    (refused : rx.nRxNetErr = true ∨ rx.nRxNetErr = false ∧ frame.length ≤ taken)
    (under : clock.Under settings) (offers : Offers frame taken clock.iNetRxDv clock.iNetRxd) :
    (rx.step clock).Idle settings ∧ ((rx.step clock).nRxNetErr = true ∨
      (rx.step clock).nRxNetErr = false ∧ frame.length ≤ taken + 1) := by
  rcases refused with raised | ⟨sound, past⟩
  · have written : rx.wr.oV = false := by rw [idle.quiet.wr]; rfl
    refine ⟨reset_step raised idle.quiet.configured under written, ?_⟩
    rw [refused_held raised]
    rcases offers.cases with ⟨-, valid, -⟩ | ⟨past, silent⟩
    · exact .inl valid
    · exact .inr ⟨silent, by omega⟩
  · have silent := offers.idle past
    exact ⟨idle.silent under sound silent, .inr ⟨by simp [Receiver.step, silent], by omega⟩⟩

theorem Idle.done (idle : rx.Idle settings)
    (refused : rx.nRxNetErr = true ∨ rx.nRxNetErr = false ∧ frame.length ≤ taken)
    (under : ∀ clock ∈ clocks, clock.Under settings) (line : OnLine frame taken clocks) :
    observed Receiver.step events rx clocks = [] := by
  induction clocks generalizing rx taken with
  | nil => rfl
  | cons clock rest ih =>
      obtain ⟨offers, online⟩ := line
      have calm : rx.events clock = [] := by
        have open_ := idle.quiet.nEop
        rw [events, idle.quiet.stores]
        cases valid : rx.nRxValid <;> simp [rises, open_, valid, Receiver.step]
      rw [observed, calm, List.nil_append]
      have later := idle.refused_step refused (under clock (.head _)) offers
      exact ih later.1 later.2 (fun other member => under other (.tail _ member)) online

/-! ### A frame no check refuses -/

/-- The length that is reported for a running address. -/
def reportedLength (aw : Nat) (hwCrcOn : Bool) (address : Nat) : Nat :=
  (BitVec.ofNat (aw + 2) address - (if hwCrcOn then 5 else 0)).toNat

theorem Running.reports (running : rx.Running settings frame taken)
    (ends : taken = settings.delay + 1 + (settings.stored frame).length)
    (some : 0 < (settings.stored frame).length) (kept : clock.nRxClear = false) :
    rx.events clock = [.reported (reportedLength aw settings.hwCrcOn
      ((settings.stored frame).length + 1))] := by
  have carrying := running.carrying
  have empty : rx.wr.oV = false := Bool.eq_false_iff.mpr fun shown => by
    have when := carrying.wr_oV.mp shown
    omega
  have eop : rx.nEop = true := (carrying.nEop_iff running.sound).mpr ⟨some, ends⟩
  have wr := (carrying.wr.after (by omega)).during (by omega)
    (List.length_pos_iff.mp some)
  have length : rx.wr.oLen = BitVec.ofNat (aw + 2) ((settings.stored frame).length + 1) := by
    rw [RxeWrite.oLen, wr.lclAddr, show taken - settings.delay =
      (settings.stored frame).length + 1 by omega]
    exact BitVec.setWidth_ofNat_of_le (by omega) _
  simp [events, stores, rises, empty, running.free, Receiver.step, kept, eop, length,
    carrying.configured.nRxConfigHwCrc, reportedLength]

theorem split_one {count : Nat} (inside : count < clocks.length) :
    ∃ front last back, clocks = front ++ last :: back ∧ front.length = count := by
  refine ⟨clocks.take count, clocks[count], clocks.drop (count + 1), ?_, ?_⟩
  · rw [← List.drop_eq_getElem_cons inside, List.take_append_drop]
  · rw [List.length_take]
    omega

/-- The whole run of such a frame. -/
theorem Running.whole (running : rx.Running settings frame 0)
    (under : ∀ clock ∈ clocks, clock.Under settings) (some : 0 < frame.length)
    (line : OnLine frame 0 clocks) (gap : frame.length + 9 ≤ clocks.length)
    (unnoticed : ∀ taken < frame.length, ¬ settings.Notices frame taken)
    (accepted : rx.Accepts clocks) :
    observed Receiver.step events rx clocks =
      List.replicate (settings.stored frame).length .stored ++
        [.reported (reportedLength aw settings.hwCrcOn
          ((settings.stored frame).length + 1))] := by
  have lower := RxeCrc.le_kept frame
  have upper := RxeCrc.kept_le frame
  have bytes := settings.stored_length frame
  have delay : settings.delay = 6 + RxeHwMac.stripped settings.hwMacOn := rfl
  by_cases none : settings.stored frame = []
  · obtain ⟨there, stored, low⟩ := running.run under some line
      (fun later _ inside => unnoticed later inside) (.inl none)
    exact absurd accepted (not_accepts (events_of_low low there.free))
  · have positive := List.length_pos_iff.mpr none
    obtain ⟨front, last, back, rfl, size⟩ :=
      split_one (show settings.delay + 1 + (settings.stored frame).length < clocks.length by omega)
    obtain ⟨lineFront, offersLast, lineBack⟩ := line.split
    rw [Nat.zero_add, size] at offersLast lineBack
    obtain ⟨there, stored, low⟩ := running.run
      (fun clock member => under clock (by simp [member])) some lineFront
      (fun later _ inside => unnoticed later inside) (.inr (.inl (by omega)))
    have count := written_length stored
    rw [Nat.zero_add, size] at there
    rw [Nat.zero_add, size, written, Nat.add_sub_cancel_left, Nat.min_self] at count
    have quiet := events_of_low low there.free
    rw [count] at quiet
    have underLast : last.Under settings := under last (by simp)
    have underBack : ∀ clock ∈ back, clock.Under settings := fun clock member =>
      under clock (by simp [member])
    cases cleared : last.nRxClear with
    | false =>
        have carried := there.carrying.step underLast some offersLast.brings there.sound
        have silent := offersLast.idle (by omega)
        rw [observed_append, quiet, observed, there.reports rfl positive cleared,
          carried.done some (by simp [Receiver.step, silent]) (by omega) (by omega) underBack
            lineBack]
        rfl
    | true =>
        -- the packet is cleared in the clock it would have become valid
        have next := there.step underLast some offersLast (fun inside => unnoticed _ inside)
          (.inl cleared)
        obtain ⟨ended, _, lowBack⟩ := next.run underBack some lineBack
          (fun later _ inside => unnoticed later inside) (.inr (.inr (by omega)))
        refine absurd accepted (not_accepts (events_of_low (fun shown member => ?_) ?_))
        · rw [observed_append, observed] at member
          simp only [List.mem_append, List.mem_singleton] at member
          rcases member with before | now | after
          · exact low shown before
          · rw [now, there.free]
          · exact lowBack shown after
        · rw [clocked_append]
          exact ended.free

/-! ### A frame a check refuses -/

/-- What a reset leaves, whatever was being written. -/
theorem reset_filters (raised : rx.nRxNetErr = true) (configured : rx.Configured settings)
    (under : clock.Under settings) : ({ rx.step clock with lastRxwr := false }).Idle settings := by
  have next := configured.step under
  refine ⟨?_, ?_, ?_, ?_, ?_, rfl,
    ⟨next.nRxConfigHwMac, next.nRxConfigHwCrc, next.nRxConfigIpCheck⟩⟩
  · simp only [Receiver.step, raised, Bool.or_true]
    exact .reset ..
  · simp only [Receiver.step, raised, Bool.or_true]
    exact .reset ..
  · simp only [Receiver.step, raised, Bool.or_true, under.hwMac]
    exact .reset ..
  · exact .gap (.inl (by simp [raised]))
  · simp [Receiver.step, raised, RxeWrite.step]

/-- A reset at a clock in which a byte was being written. Once the line is
silent the missing valid bit looks like the end of a packet, of which nothing is
left to count. -/
theorem ends_after_reset (idle : ({ rx with lastRxwr := false }).Idle settings)
    (sound : rx.nRxNetErr = false) (free : rx.nRxValid = false)
    (under : ∀ clock ∈ clocks, clock.Under settings) (off : frame.length ≤ taken)
    (line : OnLine frame taken clocks) :
    observed Receiver.step events rx clocks = [] ∨
      rx.lastRxwr = true ∧ observed Receiver.step events rx clocks =
        [.reported (reportedLength aw settings.hwCrcOn 0)] := by
  cases clocks with
  | nil => exact .inl rfl
  | cons clock rest =>
      obtain ⟨offers, online⟩ := line
      have silent := offers.idle off
      have here : clock.Under settings := under clock (.head _)
      have empty : rx.wr = RxeWrite.init := idle.quiet.wr
      have crc : rx.nRxConfigHwCrc = settings.hwCrcOn := idle.quiet.configured.nRxConfigHwCrc
      have next : (rx.step clock).Idle settings := by
        have later := idle.silent here sound silent
        exact ⟨later.pre, later.quiet.crc, later.quiet.mac, later.quiet.ip, later.quiet.wr,
          later.quiet.lastRxwr, ⟨later.quiet.configured.nRxConfigHwMac,
            later.quiet.configured.nRxConfigHwCrc, later.quiet.configured.nRxConfigIpCheck⟩⟩
      have after : observed Receiver.step events (rx.step clock) rest = [] :=
        next.done (.inr ⟨by simp [Receiver.step, silent], Nat.le_succ_of_le off⟩)
          (fun other member => under other (.tail _ member)) online
      have open_ : rx.stores clock = [] := by simp [stores, empty, RxeWrite.init]
      rw [observed, after, List.append_nil, events, open_, List.map_nil, List.nil_append]
      cases ends : rx.nEop with
      | false => exact .inl (by simp [rises, Receiver.step, free, ends])
      | true =>
          cases cleared : clock.nRxClear with
          | true => exact .inl (by simp [rises, Receiver.step, cleared])
          | false =>
              have written : rx.lastRxwr = true := by
                simp only [nEop, Bool.and_eq_true] at ends
                exact ends.1.2
              exact .inr ⟨written, by simp [rises, Receiver.step, free, ends, cleared, reportedLength,
                RxeWrite.oLen, empty, RxeWrite.init, crc]⟩

/-- A check that refuses the frame before its last byte keeps the packet from
the software. -/
theorem Running.refused_early (running : rx.Running settings frame taken)
    (under : ∀ clock ∈ clocks, clock.Under settings) (line : OnLine frame taken clocks)
    (gap : frame.length + 9 ≤ taken + clocks.length)
    (notices : settings.Notices frame taken) (early : taken + 1 < frame.length) :
    ∃ count, observed Receiver.step events rx clocks = List.replicate count .stored := by
  have some : 0 < frame.length := by omega
  match clocks, (by omega : 3 ≤ clocks.length) with
  | one :: two :: three :: back, _ =>
      obtain ⟨offersOne, offersTwo, offersThree, lineBack⟩ := line
      have underThree : three.Under settings := under three (by simp)
      obtain ⟨carrying, freeOne, raised, written, freeTwo, configured⟩ :=
        running.refused some notices (under one (by simp)) (under two (by simp)) offersOne
          offersTwo early
      have idle := reset_step raised configured underThree written
      have freeThree : (((rx.step one).step two).step three).nRxValid = false :=
        refused_valid raised freeTwo
      have quiet : observed Receiver.step events rx [one, two, three] = _ :=
        events_of_low (fun shown member => by
          simp only [observed, List.append_nil, List.mem_append, List.mem_singleton] at member
          rcases member with rfl | rfl | rfl
          · exact running.free
          · exact freeOne
          · exact freeTwo) freeThree
      have rest : observed Receiver.step events
          (((rx.step one).step two).step three) back = [] := by
        refine idle.done ?_ (fun clock member => under clock (by simp [member])) lineBack
        rw [refused_held raised]
        rcases offersThree.cases with ⟨-, valid, -⟩ | ⟨past, silent⟩
        · exact .inl valid
        · exact .inr ⟨silent, by omega⟩
      refine ⟨(observed Receiver.step stores rx [one, two, three]).length, ?_⟩
      rw [show one :: two :: three :: back = [one, two, three] ++ back from rfl, observed_append,
        quiet]
      simp only [clocked_cons, clocked_nil, rest, List.append_nil]

/-- A check that refuses the frame at its last byte comes too late: the filters
are reset, but the packet ends as far as the valid flag is concerned. -/
theorem Running.refused_last (running : rx.Running settings frame taken)
    (under : ∀ clock ∈ clocks, clock.Under settings) (line : OnLine frame taken clocks)
    (gap : frame.length + 9 ≤ taken + clocks.length)
    (notices : settings.Notices frame taken) (last : taken + 1 = frame.length) :
    ∃ more, written settings frame taken + more = written settings frame (taken + 2) ∧
      (observed Receiver.step events rx clocks = List.replicate more .stored ∨
        0 < written settings frame (taken + 2) ∧ observed Receiver.step events rx clocks =
          List.replicate more .stored ++ [.reported (reportedLength aw settings.hwCrcOn 0)]) := by
  have some : 0 < frame.length := by omega
  match clocks, (by omega : 2 ≤ clocks.length) with
  | one :: two :: back, _ =>
      obtain ⟨offersOne, offersTwo, lineBack⟩ := line
      have carrying := running.carrying
      have underOne : one.Under settings := under one (by simp)
      have underTwo : two.Under settings := under two (by simp)
      have raised : (rx.step one).nRxNetErr = true :=
        (carrying.nRxNetErr_step offersOne running.sound running.free).mpr ⟨by omega, notices⟩
      have next := carrying.step underOne some offersOne.brings running.sound
      have open_ : rx.nEop = false := Bool.eq_false_iff.mpr fun ends => by
        have when := (carrying.nEop_iff running.sound).mp ends
        have lower := RxeCrc.le_kept frame
        have bytes := settings.stored_length frame
        unfold Settings.delay at when
        omega
      have free : (rx.step one).nRxValid = false := by simp [Receiver.step, open_, running.free]
      have freeTwo : ((rx.step one).step two).nRxValid = false := refused_valid raised free
      have soundTwo : ((rx.step one).step two).nRxNetErr = false := by
        rw [refused_held raised]
        exact offersTwo.idle (by omega)
      have quiet : observed Receiver.step events rx [one, two] = _ :=
        events_of_low (fun shown member => by
          simp only [observed, List.append_nil, List.mem_append, List.mem_singleton] at member
          rcases member with rfl | rfl
          · exact running.free
          · exact free) freeTwo
      have count : written settings frame taken +
          (observed Receiver.step stores rx [one, two]).length =
            written settings frame (taken + 2) := by
        have places : Receiver.places aw (written settings frame taken) ++ rx.stores one =
            Receiver.places aw (written settings frame (taken + 1)) :=
          carrying.stores_eq running.free
        have placesTwo : Receiver.places aw (written settings frame (taken + 1)) ++
            (rx.step one).stores two = Receiver.places aw (written settings frame (taken + 2)) :=
          next.stores_eq free
        have whole : Receiver.places aw (written settings frame taken) ++
            observed Receiver.step stores rx [one, two] =
              Receiver.places aw (written settings frame (taken + 2)) := by
          rw [observed, observed, observed, List.append_nil, ← List.append_assoc, places, placesTwo]
        have length := congrArg List.length whole
        simpa [Receiver.places] using length
      refine ⟨_, count, ?_⟩
      have rest := ends_after_reset (reset_filters raised next.configured underTwo) soundTwo freeTwo
        (fun clock member => under clock (by simp [member])) (by omega) lineBack
      have split : observed Receiver.step events rx (one :: two :: back) =
          observed Receiver.step events rx [one, two] ++
            observed Receiver.step events ((rx.step one).step two) back :=
        observed_append rx [one, two] back
      rw [split, quiet]
      rcases rest with none | ⟨wrote, reports⟩
      · exact .inl (by rw [none, List.append_nil])
      · have shown : (rx.step one).wr.oV = true := wrote
        have when := next.wr_oV.mp shown
        refine .inr ⟨?_, by rw [reports]⟩
        unfold written
        omega

/-! ### The lengths that are right -/

theorem reportedLength_eq (aw : Nat) (hwCrcOn : Bool) (large : 2048 ≤ 2 ^ (aw + 2)) (address : Nat) :
    reportedLength aw hwCrcOn address =
      (2 ^ (aw + 2) - (if hwCrcOn then 5 else 0) + address) % 2 ^ (aw + 2) := by
  have five : (5 : BitVec (aw + 2)).toNat = 5 :=
    (BitVec.toNat_ofNat ..).trans (Nat.mod_eq_of_lt (show 5 < 2 ^ (aw + 2) by omega))
  unfold reportedLength
  cases hwCrcOn with
  | false => simp
  | true =>
      simp only [if_true]
      rw [BitVec.toNat_sub, five, BitVec.toNat_ofNat, Nat.add_mod_mod]

theorem length_right_iff (aw : Nat) (hwCrcOn : Bool) (large : 2048 ≤ 2 ^ (aw + 2)) (count : Nat) :
    reportedLength aw hwCrcOn (count + 1) + (if hwCrcOn then 4 else 0) = count ↔
      hwCrcOn = true ∧ 4 ≤ count ∧ count < 2 ^ (aw + 2) + 4 := by
  rw [reportedLength_eq aw hwCrcOn large]
  generalize 2 ^ (aw + 2) = size at large ⊢
  have bound := Nat.mod_lt (size + (count + 1)) (show 0 < size by omega)
  cases hwCrcOn with
  | false =>
      simp only [Bool.false_eq_true, if_false, Nat.sub_zero, Nat.add_zero, false_and, iff_false,
        Nat.add_mod_left]
      intro same
      have part := Nat.mod_add_div (count + 1) size
      rw [same] at part
      have whole : size * ((count + 1) / size) = 1 := by omega
      have one := Nat.eq_one_of_mul_eq_one_right whole
      omega
  | true =>
      simp only [if_true, true_and]
      constructor
      · intro same
        have below := Nat.mod_lt (size - 5 + (count + 1)) (show 0 < size by omega)
        omega
      · rintro ⟨enough, fits⟩
        rw [show size - 5 + (count + 1) = count - 4 + size by omega, Nat.add_mod_right,
          Nat.mod_eq_of_lt (by omega)]
        omega

theorem length_wrong (aw : Nat) (hwCrcOn : Bool) (large : 2048 ≤ 2 ^ (aw + 2)) {count : Nat}
    (some : 0 < count) (few : count ≤ 1000) :
    reportedLength aw hwCrcOn 0 + (if hwCrcOn then 4 else 0) ≠ count := by
  rw [reportedLength_eq aw hwCrcOn large, Nat.add_zero]
  generalize 2 ^ (aw + 2) = size at large ⊢
  cases hwCrcOn with
  | false =>
      simp only [Bool.false_eq_true, if_false, Nat.sub_zero, Nat.mod_self]
      omega
  | true =>
      simp only [if_true]
      rw [Nat.mod_eq_of_lt (by omega)]
      omega

/-- A frame in which a check shows an error is not reported, or not with its length. -/
theorem Running.not_reportsLength (running : rx.Running settings frame 0)
    (large : 2048 ≤ 2 ^ (aw + 2)) (under : ∀ clock ∈ clocks, clock.Under settings)
    (some : 0 < frame.length) (line : OnLine frame 0 clocks)
    (gap : frame.length + 9 ≤ clocks.length) (accepted : rx.Accepts clocks) {first : Nat}
    (inside : first < frame.length) (notices : settings.Notices frame first)
    (before : ∀ taken < first, ¬ settings.Notices frame taken) :
    ¬ ReportsLength settings rx clocks := by
  obtain ⟨front, back, rfl, size⟩ : ∃ front back, clocks = front ++ back ∧
      front.length = first :=
    ⟨clocks.take first, clocks.drop first, (List.take_append_drop ..).symm, by
      rw [List.length_take]; omega⟩
  rw [List.length_append] at gap
  obtain ⟨lineFront, lineBack⟩ := line.split
  have lower := RxeCrc.le_kept frame
  have bytes := settings.stored_length frame
  have delay : settings.delay = 6 + RxeHwMac.stripped settings.hwMacOn := rfl
  obtain ⟨there, stored, low⟩ := running.run
    (fun clock member => under clock (List.mem_append_left _ member)) some lineFront
    (fun later below _ => before later (by omega)) (.inr (.inl (by omega)))
  have count := written_length stored
  have quiet := events_of_low low there.free
  rw [Nat.zero_add, size] at there lineBack count
  rw [count] at quiet
  have underBack : ∀ clock ∈ back, clock.Under settings := fun clock member =>
    under clock (List.mem_append_right _ member)
  by_cases last : first + 1 = frame.length
  · obtain ⟨more, total, ends⟩ := there.refused_last underBack lineBack (by omega) notices last
    rcases ends with silent | ⟨positive, reports⟩
    · have seen : observed Receiver.step events rx (front ++ back) =
          List.replicate (written settings frame (first + 2)) .stored := by
        rw [observed_append, quiet, silent, ← List.replicate_add, total]
      exact absurd accepted (not_accepts seen)
    · have seen : observed Receiver.step events rx (front ++ back) =
          List.replicate (written settings frame (first + 2)) .stored ++
            [.reported (reportedLength aw settings.hwCrcOn 0)] := by
        rw [observed_append, quiet, reports, ← List.append_assoc, ← List.replicate_add, total]
      rw [Receiver.reportsLength_iff seen]
      refine length_wrong aw _ large positive ?_
      -- in a long frame an error shows early
      have short : frame.length ≤ 83 := by
        by_contra long
        have refuses := (notices_iff (by omega)).mp ⟨first, notices⟩
        have early : settings.Notices frame 82 :=
          (notices_late (by omega) (Nat.le_refl 82)).mpr refuses
        exact before 82 (by omega) early
      unfold written
      omega
  · obtain ⟨more, silent⟩ := there.refused_early underBack lineBack (by omega) notices (by omega)
    have seen : observed Receiver.step events rx (front ++ back) =
        List.replicate (written settings frame first + more) .stored := by
      rw [observed_append, quiet, silent, ← List.replicate_add]
    exact absurd accepted (not_accepts seen)

/-- A frame from its first byte on, with a free buffer. -/
theorem Running.reportsLength_iff (running : rx.Running settings frame 0)
    (large : 2048 ≤ 2 ^ (aw + 2)) (under : ∀ clock ∈ clocks, clock.Under settings)
    (some : 0 < frame.length) (line : OnLine frame 0 clocks)
    (gap : frame.length + 9 ≤ clocks.length) (accepted : rx.Accepts clocks) :
    ReportsLength settings rx clocks ↔
      settings.hwCrcOn = true ∧ 4 ≤ (settings.stored frame).length ∧
        (settings.stored frame).length < 2 ^ (aw + 2) + 4 ∧
        ∀ taken < frame.length, ¬ settings.Notices frame taken := by
  classical
  by_cases unnoticed : ∀ taken < frame.length, ¬ settings.Notices frame taken
  · rw [Receiver.reportsLength_iff (running.whole under some line gap unnoticed accepted),
      length_right_iff aw _ large]
    exact ⟨fun known => ⟨known.1, known.2.1, known.2.2, unnoticed⟩,
      fun known => ⟨known.1, known.2.1, known.2.2.1⟩⟩
  · have noticed : ∃ taken, taken < frame.length ∧ settings.Notices frame taken := by
      simpa using unnoticed
    -- the first clock at which a check shows an error
    have first := Nat.find_spec noticed
    refine iff_of_false (running.not_reportsLength large under some line gap accepted first.1 first.2
      fun taken below notices => ?_) fun all => unnoticed all.2.2.2
    exact Nat.find_min noticed below ⟨Nat.lt_trans below first.1, notices⟩

/-! ### A buffer that is freed in time -/

/-- The receiver, had the buffer been free. -/
def freed (rx : Receiver aw) : Receiver aw := { rx with nRxValid := false }

/-- Before a byte is written the valid flag matters to itself alone. -/
theorem freed_step (empty : rx.freed.stores clock = [])
    (low : (rx.freed.step clock).nRxValid = false) :
    (rx.step clock).freed = rx.freed.step clock ∧ rx.events clock = [] := by
  have noWrite : rx.wr.oV = false := by
    cases written : rx.wr.oV with
    | false => rfl
    | true => simp [stores, freed, written] at empty
  have ends : clock.nRxClear = true ∨ rx.nEop = false := by
    cases cleared : clock.nRxClear with
    | true => exact .inl rfl
    | false =>
        refine .inr (Bool.eq_false_iff.mpr fun eop => ?_)
        have same : rx.freed.nEop = true := eop
        simp [Receiver.step, cleared, same] at low
  constructor
  · have same : ({ rx with nRxValid := false } : Receiver aw).nEop = rx.nEop := rfl
    simp only [freed, Receiver.step, noWrite, Bool.false_and, Bool.and_false, same]
    rcases ends with cleared | open_
    · simp only [cleared, if_true]
    · simp only [open_, Bool.false_eq_true, if_false, ite_self]
  · rcases ends with cleared | open_
    · simp [events, stores, rises, noWrite, Receiver.step, cleared]
    · cases valid : rx.nRxValid <;>
        simp [events, stores, rises, noWrite, Receiver.step, open_, valid]

theorem freed_run (empty : observed Receiver.step stores rx.freed clocks = [])
    (low : ∀ shown ∈ observed Receiver.step (fun rx _ => [rx.nRxValid]) rx.freed clocks,
      shown = false) (free : (clocked Receiver.step rx.freed clocks).nRxValid = false) :
    (clocked Receiver.step rx clocks).freed = clocked Receiver.step rx.freed clocks ∧
      observed Receiver.step events rx clocks = [] := by
  induction clocks generalizing rx with
  | nil => exact ⟨rfl, rfl⟩
  | cons clock rest ih =>
      obtain ⟨now, later⟩ := List.append_eq_nil_iff.mp empty
      have lowLater : ∀ shown ∈ observed Receiver.step (fun rx _ => [rx.nRxValid])
          (rx.freed.step clock) rest, shown = false := fun shown member => low shown (.tail _ member)
      have next : (rx.freed.step clock).nRxValid = false := by
        cases rest with
        | nil => exact free
        | cons _ _ => exact lowLater _ (.head _)
      obtain ⟨same, calm⟩ := freed_step now next
      rw [← same] at later lowLater
      rw [clocked_cons, ← same] at free
      obtain ⟨last, silent⟩ := ih later lowLater free
      rw [clocked_cons, clocked_cons, ← same]
      exact ⟨last, by rw [observed, calm, silent]; rfl⟩

/-- The receiver until the first byte of a frame is written, whatever the checks
have shown. -/
structure Early (settings : Settings) (frame : List Byte) (taken : Nat) (rx : Receiver aw) :
    Prop where
  free : rx.nRxValid = false
  filters : rx.Carrying settings frame taken ∨
    rx.Idle settings ∧ (rx.nRxNetErr = true ∨ rx.nRxNetErr = false ∧ frame.length ≤ taken)

theorem Early.empty (early : rx.Early settings frame taken) (before : taken ≤ settings.delay) :
    rx.wr.oV = false ∧ rx.nEop = false := by
  rcases early.filters with carrying | ⟨idle, -⟩
  · constructor
    · exact Bool.eq_false_iff.mpr fun shown => by
        have when := carrying.wr_oV.mp shown
        omega
    · have last : rx.lastRxwr = false := Bool.eq_false_iff.mpr fun shown => by
        have when := carrying.lastRxwr.mp shown
        omega
      simp [nEop, last]
  · exact ⟨by rw [idle.quiet.wr]; rfl, idle.quiet.nEop⟩

theorem Early.step (early : rx.Early settings frame taken) (before : taken ≤ settings.delay)
    (some : 0 < frame.length) (under : clock.Under settings)
    (offers : Offers frame taken clock.iNetRxDv clock.iNetRxd) :
    (rx.step clock).Early settings frame (taken + 1) := by
  obtain ⟨written, open_⟩ := early.empty before
  refine ⟨by simp [Receiver.step, open_, early.free], ?_⟩
  rcases early.filters with carrying | ⟨idle, refused⟩
  · cases sound : rx.nRxNetErr with
    | false => exact .inl (carrying.step under some offers.brings sound)
    | true =>
        refine .inr ⟨reset_step sound carrying.configured under written, ?_⟩
        rw [refused_held sound]
        rcases offers.cases with ⟨-, valid, -⟩ | ⟨past, silent⟩
        · exact .inl valid
        · exact .inr ⟨silent, by omega⟩
  · refine .inr ?_
    exact idle.refused_step refused under offers

theorem Early.run (early : rx.Early settings frame taken) (some : 0 < frame.length)
    (before : taken + clocks.length ≤ settings.delay + 1)
    (under : ∀ clock ∈ clocks, clock.Under settings) (line : OnLine frame taken clocks) :
    observed Receiver.step stores rx clocks = [] ∧
      (∀ shown ∈ observed Receiver.step (fun rx _ => [rx.nRxValid]) rx clocks, shown = false) ∧
      (clocked Receiver.step rx clocks).nRxValid = false := by
  induction clocks generalizing rx taken with
  | nil => exact ⟨rfl, (fun _ member => nomatch member), early.free⟩
  | cons clock rest ih =>
      obtain ⟨offers, online⟩ := line
      rw [List.length_cons] at before
      obtain ⟨none, low, free⟩ := ih
        (early.step (by omega) some (under clock (.head _)) offers) (by omega)
        (fun other member => under other (.tail _ member)) online
      refine ⟨?_, fun shown member => ?_, free⟩
      · rw [observed, none, stores, (early.empty (by omega)).1]
        rfl
      · rcases List.mem_cons.mp member with rfl | later
        · exact early.free
        · exact low shown later

end Receiver

open Receiver

variable {settings : Settings}

/-- A frame whose first byte finds the buffer free and which is handed to the
software is reported with its length if and only if the hardware checks the
check sequence, four bytes or more are stored and no more than fit with it, and
no check refuses the frame. -/
theorem rx_length_iff (width : Nat) {rx : Receiver (maw width)} (idle : rx.Idle settings)
    (sound : rx.nRxNetErr = false) {preamble clocks : List RxClock} (legal : Preamble preamble)
    (under : ∀ clock ∈ preamble ++ clocks, clock.Under settings) {frame : List Byte}
    (some : frame ≠ []) (line : OnLine frame 0 clocks) (gap : frame.length + 9 ≤ clocks.length)
    (free : (clocked Receiver.step rx
      (preamble ++ clocks.take (settings.delay + 1))).nRxValid = false)
    (accepted : rx.Accepts (preamble ++ clocks)) :
    ReportsLength settings rx (preamble ++ clocks) ↔
      settings.hwCrcOn = true ∧ 4 ≤ (settings.stored frame).length ∧
        (settings.stored frame).length < 2 ^ (maw width + 2) + 4 ∧
        ∀ taken < frame.length, ¬ settings.Notices frame taken := by
  obtain ⟨syncs, enough, samples⟩ := legal
  have positive : 0 < frame.length := List.length_pos_iff.mpr some
  have underFrame : ∀ clock ∈ clocks, clock.Under settings := fun clock member =>
    under clock (List.mem_append_right _ member)
  -- the same clocks of a receiver with a free buffer
  have start : rx.freed.Syncing settings 0 :=
    ⟨⟨idle.quiet.crc, idle.quiet.mac, idle.quiet.ip, idle.quiet.wr, idle.quiet.lastRxwr,
      ⟨idle.quiet.configured.nRxConfigHwMac, idle.quiet.configured.nRxConfigHwCrc,
        idle.quiet.configured.nRxConfigIpCheck⟩⟩, sound, rfl, idle.pre.rInpkt, idle.pre.oV,
      by rw [show rx.freed.pre.nsyncs = 0 from idle.pre.nsyncs]; rfl⟩
  obtain ⟨running, storedFirst, lowFirst⟩ := start.run
    (fun clock member => under clock (List.mem_append_left _ member)) (by omega) samples frame
  have lineFirst : OnLine frame 0 (clocks.take (settings.delay + 1)) := by
    rw [← List.take_append_drop (settings.delay + 1) clocks] at line
    exact line.split.1
  obtain ⟨storedNext, lowNext, freeNext⟩ := Early.run ⟨running.free, .inl running.carrying⟩ positive
    (by rw [List.length_take]; omega)
    (fun clock member => underFrame clock (List.mem_of_mem_take member)) lineFirst
  obtain ⟨same, silent⟩ := @freed_run _ rx (preamble ++ clocks.take (settings.delay + 1))
    (by rw [observed_append, storedFirst, storedNext]; rfl)
    (fun shown member => by
      rw [observed_append] at member
      exact (List.mem_append.mp member).elim (lowFirst shown) (lowNext shown))
    (by rw [clocked_append]; exact freeNext)
  have met : clocked Receiver.step rx (preamble ++ clocks.take (settings.delay + 1)) =
      clocked Receiver.step (clocked Receiver.step rx.freed preamble)
        (clocks.take (settings.delay + 1)) := by
    rw [← clocked_append, ← same, freed, ← free]
  have calm := events_of_low lowNext freeNext
  rw [storedNext] at calm
  have events : observed Receiver.step events rx (preamble ++ clocks) =
      observed Receiver.step events (clocked Receiver.step rx.freed preamble) clocks := by
    conv_lhs => rw [← List.take_append_drop (settings.delay + 1) clocks, ← List.append_assoc,
      observed_append, silent, met]
    conv_rhs => rw [← List.take_append_drop (settings.delay + 1) clocks, observed_append, calm]
    rfl
  rw [Accepts, events] at accepted
  rw [ReportsLength, events]
  exact running.reportsLength_iff (buffer_large width) underFrame positive line gap accepted

/-! ### A packet of sixty-four bytes -/

def plainFrame : List Byte := List.replicate 64 0x11

theorem plain_frame_judged :
    ReportsLength promiscuous (freshReceiver (maw 11)) (wirePreamble ++ wire plainFrame) ↔
      promiscuous.hwCrcOn = true ∧ 4 ≤ (promiscuous.stored plainFrame).length ∧
        (promiscuous.stored plainFrame).length < 2 ^ (maw 11 + 2) + 4 ∧
        ∀ taken < plainFrame.length, ¬ promiscuous.Notices plainFrame taken :=
  rx_length_iff 11 (freshReceiver_idle _) rfl wirePreamble_legal (wire_under _) (by decide)
    (wire_onLine _) (wire_gap _) (by decide +kernel) ⟨65, by decide +kernel⟩

/-- Without the check of the hardware a packet is reported a byte too long. -/
theorem plain_frame_too_long : ¬ ∀ (width : Nat) (settings : Settings)
    (rx : Receiver (maw width)) (preamble clocks : List RxClock) (frame : List Byte),
    rx.Idle settings → rx.nRxNetErr = false → rx.nRxValid = false → Preamble preamble →
    (∀ clock ∈ preamble ++ clocks, clock.Under settings) → 64 ≤ frame.length →
    OnLine frame 0 clocks → frame.length + 9 ≤ clocks.length →
    rx.Accepts (preamble ++ clocks) → ReportsLength settings rx (preamble ++ clocks) := by
  intro always
  have right := always 11 promiscuous (freshReceiver _) wirePreamble (wire plainFrame) plainFrame
    (freshReceiver_idle _) rfl rfl wirePreamble_legal (wire_under _) (by decide) (wire_onLine _)
    (wire_gap _) ⟨65, by decide +kernel⟩
  have length := right (List.replicate 64 .stored) 65 [] (by decide +kernel)
  revert length
  decide

end ZipVersa.Enet
