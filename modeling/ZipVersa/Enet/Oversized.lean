import ZipVersa.Enet.Frame
import Mathlib.Data.List.Nodup
import Mathlib.Data.Nat.Find

/-! Frames longer than the receive buffer. `rxewrite` counts bytes with a bit to
spare and writes with the count cut to the buffer, so what does not fit goes
over the beginning; nothing looks at the spare bit. -/

set_option autoImplicit false

namespace ZipVersa.Enet

open Lib Receiver

/-- `MAW`, from `MEMORY_ADDRESS_WIDTH`. -/
def maw (memoryAddressWidth : Nat) : Nat :=
  (if 14 < memoryAddressWidth then 14
    else if memoryAddressWidth < 11 then 11 else memoryAddressWidth) - 2

theorem buffer_large (width : Nat) : 2048 ≤ 2 ^ (maw width + 2) := by
  have bound : 11 ≤ maw width + 2 := by
    unfold maw
    split
    · omega
    · split <;> omega
  calc 2048 = 2 ^ 11 := rfl
    _ ≤ 2 ^ (maw width + 2) := Nat.pow_le_pow_right (by decide) bound

/-- The frame is refused for its destination or for its IP header. -/
def Settings.Refuses (settings : Settings) (frame : List Byte) : Prop :=
  settings.hwMacOn = true ∧ ¬ RxeHwMac.Accepts settings.hwMac frame ∨
    settings.ipCheckOn = true ∧ RxeIpChk.Rejects frame

/-! ### The checks of a long frame -/

variable {settings : Settings} {frame : List Byte}

theorem keeps_getD {index : Nat} (inside : index < RxeCrc.kept frame) :
    (RxeCrc.keeps frame).getD index 0 = frame.getD index 0 := by
  rw [RxeCrc.keeps, List.getD, List.getD, List.getElem?_take_of_lt inside]

theorem accepts_keeps (hwMac : BitVec 48) (long : 82 ≤ frame.length) :
    RxeHwMac.Accepts hwMac (RxeCrc.keeps frame) ↔ RxeHwMac.Accepts hwMac frame := by
  have length := RxeCrc.le_kept frame
  have same (address : BitVec 48) : RxeHwMac.Addresses address (RxeCrc.keeps frame) ↔
      RxeHwMac.Addresses address frame :=
    forall_congr' fun index => imp_congr_right fun below => by
      rw [keeps_getD (by omega)]
  rw [RxeHwMac.Accepts, RxeHwMac.Accepts, same, same]

theorem halfword_keeps (long : 82 ≤ frame.length) {index : Nat} (early : index < 40) :
    RxeIpChk.halfword (RxeCrc.keeps frame) index = RxeIpChk.halfword frame index := by
  have length := RxeCrc.le_kept frame
  rw [RxeIpChk.halfword, RxeIpChk.halfword, keeps_getD (by omega), keeps_getD (by omega)]

theorem ihl_keeps (long : 82 ≤ frame.length) :
    RxeIpChk.ihl (RxeCrc.keeps frame) = RxeIpChk.ihl frame := by
  rw [RxeIpChk.ihl, RxeIpChk.ihl, halfword_keeps long (by decide)]

theorem summed_keeps (long : 82 ≤ frame.length) :
    RxeIpChk.Summed (RxeCrc.keeps frame) ↔ RxeIpChk.Summed frame := by
  have nibble : RxeIpChk.ihl frame < 16 := (RxeIpChk.headerWords _).isLt
  have same : RxeIpChk.headerHalfwords (RxeCrc.keeps frame) (2 * RxeIpChk.ihl frame) =
      RxeIpChk.headerHalfwords frame (2 * RxeIpChk.ihl frame) := by
    apply List.map_congr_left
    intro index member
    have below := List.mem_range.mp member
    rw [halfword_keeps long (by omega)]
  rw [RxeIpChk.Summed, RxeIpChk.Summed, ihl_keeps long, same]

theorem rejects_keeps (long : 82 ≤ frame.length) :
    RxeIpChk.Rejects (RxeCrc.keeps frame) ↔ RxeIpChk.Rejects frame := by
  rw [RxeIpChk.Rejects, RxeIpChk.Rejects, RxeIpChk.IsIp, RxeIpChk.IsIp, summed_keeps long,
    ihl_keeps long, halfword_keeps long (by decide), halfword_keeps long (by decide)]

/-- From the seventy-seventh byte on the verdict on the header stands. -/
theorem errorBy_late {taken : Nat} (late : 77 ≤ taken) :
    RxeIpChk.ErrorBy frame taken ↔ RxeIpChk.Rejects frame := by
  have nibble : RxeIpChk.ihl frame < 16 := (RxeIpChk.headerWords _).isLt
  have past : 2 * RxeIpChk.ihl frame + 7 < RxeIpChk.processed taken := by
    unfold RxeIpChk.processed
    omega
  have some : 7 < RxeIpChk.processed taken := by omega
  rw [RxeIpChk.rejects_iff, RxeIpChk.ErrorBy]
  simp only [past, some, true_and]

theorem notices_late (long : 82 ≤ frame.length) {taken : Nat} (late : 82 ≤ taken) :
    settings.Notices frame taken ↔ settings.Refuses frame := by
  have begun : 12 ≤ taken := by omega
  have past : 5 ≤ taken := by omega
  rw [Settings.Notices, Settings.Refuses, accepts_keeps _ long, errorBy_late (by omega),
    rejects_keeps long]
  simp only [begun, past, true_and]

theorem Settings.Notices.later {taken later : Nat} (notices : settings.Notices frame taken)
    (after : taken ≤ later) : settings.Notices frame later := by
  rcases notices with ⟨filters, begun, refused⟩ | ⟨checks, begun, error⟩
  · exact .inl ⟨filters, by omega, refused⟩
  · exact .inr ⟨checks, by omega, error.later (by omega)⟩

/-- An error in a long frame is noticed in its first bytes or not at all. -/
theorem notices_iff (long : 82 ≤ frame.length) :
    (∃ taken, settings.Notices frame taken) ↔ settings.Refuses frame := by
  constructor
  · rintro ⟨taken, notices⟩
    exact (notices_late long (Nat.le_max_right taken 82)).mp
      (notices.later (Nat.le_max_left taken 82))
  · intro refuses
    exact ⟨82, (notices_late long (Nat.le_refl 82)).mpr refuses⟩

/-! ### The run of a long frame -/

theorem places_nodup (aw count : Nat) : (places aw count).Nodup ↔ count ≤ 2 ^ (aw + 2) := by
  constructor
  · intro apart
    by_contra above
    have positive := Nat.two_pow_pos (aw + 2)
    have length : (places aw count).length = count := by simp [places]
    have first : 0 < (places aw count).length := by omega
    have again : 2 ^ (aw + 2) < (places aw count).length := by omega
    have same : (places aw count)[0] = (places aw count)[2 ^ (aw + 2)] := by
      apply BitVec.eq_of_toNat_eq
      simp only [places, List.getElem_map, List.getElem_range, BitVec.toNat_ofNat, Nat.mod_self,
        Nat.zero_mod]
    have equal := List.Nodup.getElem_inj_iff apart |>.mp same
    omega
  · intro fits
    refine List.Nodup.map_on ?_ List.nodup_range
    intro left leftIn right rightIn same
    have leftBound := List.mem_range.mp leftIn
    have rightBound := List.mem_range.mp rightIn
    have numbers := congrArg BitVec.toNat same
    rwa [BitVec.toNat_ofNat, BitVec.toNat_ofNat, Nat.mod_eq_of_lt (by omega),
      Nat.mod_eq_of_lt (by omega)] at numbers

variable {aw : Nat} {rx : Receiver aw} {clocks : List RxClock}

/-- No place of the buffer is written twice and the valid flag stays low. -/
def KeptOut (rx : Receiver aw) (clocks : List RxClock) : Prop :=
  (observed Receiver.step stores rx clocks).Nodup ∧
    ∀ shown ∈ observed Receiver.step (fun rx _ => [rx.nRxValid]) rx clocks, shown = false

theorem keptOut_append {first second : List RxClock} (rx : Receiver aw)
    (stored : observed Receiver.step stores rx first = [])
    (valid : ∀ shown ∈ observed Receiver.step (fun rx _ => [rx.nRxValid]) rx first,
      shown = false) :
    KeptOut rx (first ++ second) ↔ KeptOut (clocked Receiver.step rx first) second := by
  unfold KeptOut
  rw [observed_append, observed_append, stored, List.nil_append]
  refine and_congr_right fun _ => ?_
  constructor
  · intro all shown member
    exact all shown (List.mem_append_right _ member)
  · intro later shown member
    rcases List.mem_append.mp member with here | there
    · exact valid shown here
    · exact later shown there

theorem split_three {count : Nat} (enough : count + 3 ≤ clocks.length) :
    ∃ front one two three back, clocks = front ++ one :: two :: three :: back ∧
      front.length = count := by
  have whole := List.take_append_drop count clocks
  have size : (clocks.take count).length = count := by
    rw [List.length_take]
    omega
  have rest : 3 ≤ (clocks.drop count).length := by
    rw [List.length_drop]
    omega
  match drops : clocks.drop count, rest with
  | one :: two :: three :: back, _ =>
      rw [drops] at whole
      exact ⟨clocks.take count, one, two, three, back, whole.symm, size⟩

/-- A refused frame stores a few bytes before the error is noticed and is reset
from then on. -/
theorem refused_keptOut (running : rx.Running settings frame 0)
    (under : ∀ clock ∈ clocks, clock.Under settings) (line : OnLine frame 0 clocks)
    (whole : frame.length ≤ clocks.length) (long : 100 ≤ frame.length)
    (buffer : 100 ≤ 2 ^ (aw + 2)) (refuses : settings.Refuses frame) : KeptOut rx clocks := by
  classical
  have noticed : ∃ taken, settings.Notices frame taken := (notices_iff (by omega)).mpr refuses
  -- the first clock at which an error shows
  obtain ⟨early, notices⟩ : Nat.find noticed ≤ 82 ∧ settings.Notices frame (Nat.find noticed) :=
    ⟨Nat.find_min' noticed ((notices_late (by omega) (Nat.le_refl 82)).mpr refuses),
      Nat.find_spec noticed⟩
  have unnoticed : ∀ later < Nat.find noticed, ¬ settings.Notices frame later :=
    fun later below => Nat.find_min noticed below
  generalize Nat.find noticed = first at early notices unnoticed
  have length := RxeCrc.le_kept frame
  have bytes := settings.stored_length frame
  have few := RxeHwMac.stripped_le settings.hwMacOn
  -- two clocks in which the error is taken up and the filters are cleared
  obtain ⟨front, one, two, three, back, rfl, size⟩ : ∃ front one two three back,
      clocks = front ++ one :: two :: three :: back ∧ front.length = first :=
    split_three (by omega)
  obtain ⟨lineFront, offersOne, offersTwo, offersThree, lineBack⟩ := line.split
  rw [Nat.zero_add, size] at offersOne offersTwo offersThree lineBack
  have underFront : ∀ clock ∈ front, clock.Under settings := fun clock member =>
    under clock (by simp [member])
  have underOne : one.Under settings := under one (by simp)
  have underTwo : two.Under settings := under two (by simp)
  have underThree : three.Under settings := under three (by simp)
  obtain ⟨there, stored, valid⟩ := running.run underFront (by omega) lineFront
    (fun later below _ => unnoticed later (by omega)) (.inr (.inl (by omega)))
  rw [Nat.zero_add, size] at there stored
  obtain ⟨carrying, freeOne, raised, written, freeTwo, configured⟩ :=
    there.refused (by omega) notices underOne underTwo offersOne offersTwo (by omega)
  have held : (((clocked Receiver.step rx front).step one).step two).stores three = [] := by
    simp [stores, written]
  have dropped : ((((clocked Receiver.step rx front).step one).step two).step three).Dropped
      settings frame (first + 1 + 1 + 1) := by
    refine ⟨reset_step raised configured underThree written, .inl ?_,
      refused_valid raised freeTwo⟩
    rw [refused_held raised]
    exact offersThree.valid.mpr (by omega)
  obtain ⟨none, later⟩ := dropped.run
    (fun clock member => under clock (by simp [member])) lineBack
  have empty : places aw (Receiver.written settings frame 0) = [] := by
    simp [places, Receiver.written]
  rw [empty, List.nil_append] at stored
  constructor
  · rw [observed_append, stored]
    simp only [observed]
    rw [none, held, List.append_nil, List.append_nil, ← List.append_assoc,
      there.carrying.stores_eq there.free, carrying.stores_eq freeOne, places_nodup]
    unfold Receiver.written
    omega
  · intro shown member
    rw [observed_append] at member
    simp only [observed, List.mem_append, List.mem_singleton] at member
    rcases member with inFront | atOne | atTwo | atThree | inBack
    · exact valid shown inFront
    · rw [atOne, there.free]
    · rw [atTwo, freeOne]
    · rw [atThree, freeTwo]
    · exact later shown inBack

/-- The software clears the receiver at a clock. -/
def ClearedAt (clocks : List RxClock) (index : Nat) : Prop :=
  ∃ clock, clocks[index]? = some clock ∧ clock.nRxClear = true

/-- The clock at which the packet ends, unless the software clears the receiver. -/
theorem Receiver.Running.nRxValid_raised {taken : Nat} {clock : RxClock}
    (running : rx.Running settings frame taken) (some : 0 < (settings.stored frame).length)
    (ends : taken = settings.delay + 1 + (settings.stored frame).length)
    (uncleared : ¬ clock.nRxClear = true) : (rx.step clock).nRxValid = true := by
  have eop := (running.carrying.nEop_iff running.sound).mpr ⟨some, ends⟩
  simp [Receiver.step, eop, uncleared]

theorem written_all {taken : Nat}
    (past : settings.delay + 1 + (settings.stored frame).length ≤ taken) :
    Receiver.written settings frame taken = (settings.stored frame).length := by
  unfold Receiver.written
  omega

/-- Behind the end of the packet nothing is stored. -/
theorem Receiver.Running.stores_none {taken : Nat} {clock : RxClock}
    (running : rx.Running settings frame taken)
    (past : settings.delay + 1 + (settings.stored frame).length ≤ taken) : rx.stores clock = [] := by
  have step : places aw (Receiver.written settings frame taken) ++ rx.stores clock = _ :=
    running.carrying.stores_eq running.free
  rw [written_all past, written_all (by omega)] at step
  exact List.append_right_eq_self.mp step

/-- A frame that is not refused is written to its last byte and reported. -/
theorem accepted_keptOut (running : rx.Running settings frame 0)
    (under : ∀ clock ∈ clocks, clock.Under settings) (line : OnLine frame 0 clocks)
    (gap : frame.length + 9 ≤ clocks.length) (long : 82 ≤ frame.length)
    (passes : ¬ settings.Refuses frame) :
    KeptOut rx clocks ↔ (settings.stored frame).length ≤ 2 ^ (aw + 2) ∧
      ClearedAt clocks (settings.delay + 1 + (settings.stored frame).length) := by
  have unnoticed : ∀ taken, ¬ settings.Notices frame taken := fun taken notices =>
    passes ((notices_iff long).mp ⟨taken, notices⟩)
  have lower := RxeCrc.le_kept frame
  have upper := RxeCrc.kept_le frame
  have bytes := settings.stored_length frame
  have few := RxeHwMac.stripped_le settings.hwMacOn
  have delay : settings.delay = 6 + RxeHwMac.stripped settings.hwMacOn := rfl
  obtain ⟨front, last, next, back, rfl, size⟩ : ∃ front last next back,
      clocks = front ++ last :: next :: back ∧
        front.length = settings.delay + 1 + (settings.stored frame).length := by
    obtain ⟨front, one, two, three, back, whole, size⟩ := split_three
      (show settings.delay + 1 + (settings.stored frame).length - 1 + 3 ≤ clocks.length by omega)
    exact ⟨front ++ [one], two, three, back, by simp [whole], by simp; omega⟩
  obtain ⟨lineFront, offersLast, lineBack⟩ := line.split
  rw [Nat.zero_add, size] at offersLast lineBack
  obtain ⟨there, stored, valid⟩ := running.run
    (fun clock member => under clock (by simp [member])) (by omega) lineFront
    (fun later _ _ => unnoticed later) (.inr (.inl (by omega)))
  have empty : places aw (Receiver.written settings frame 0) = [] := by
    simp [places, Receiver.written]
  rw [empty, List.nil_append, written_all (by omega)] at stored
  rw [Nat.zero_add, size] at there
  have underLast : last.Under settings := under last (by simp)
  have clearedAt : ClearedAt (front ++ last :: next :: back)
      (settings.delay + 1 + (settings.stored frame).length) ↔ last.nRxClear = true := by
    unfold ClearedAt
    rw [← size]
    simp
  rw [clearedAt]
  constructor
  · rintro ⟨apart, shown⟩
    constructor
    · rw [observed_append, stored] at apart
      exact (places_nodup aw _).mp (List.Nodup.of_append_left apart)
    · by_contra uncleared
      have reported := there.nRxValid_raised (by omega) rfl uncleared
      have low := shown true (by simp [observed_append, observed, reported])
      cases low
  · rintro ⟨fits, cleared⟩
    have after := there.step underLast (by omega) offersLast (fun _ => unnoticed _) (.inl cleared)
    obtain ⟨-, rest, later⟩ := after.run
      (fun clock member => under clock (by simp [List.mem_cons.mp member])) (by omega) lineBack
      (fun other _ _ => unnoticed other) (.inr (.inr (by omega)))
    have nothing : (clocked Receiver.step rx front).stores last = [] :=
      there.stores_none (Nat.le_refl _)
    rw [written_all (by omega), written_all (by omega)] at rest
    have silent := List.append_right_eq_self.mp rest
    constructor
    · rw [observed_append, stored, observed, nothing, List.nil_append, silent, List.append_nil,
        places_nodup]
      exact fits
    · intro shown member
      rw [observed_append, observed] at member
      simp only [List.mem_append, List.mem_singleton] at member
      rcases member with inFront | atLast | inBack
      · exact valid shown inFront
      · rw [atLast, there.free]
      · exact later shown inBack

/-- A frame longer than the buffer is kept out of it exactly when another check
refuses it, or, where the bytes that are left of it still fit, when the software
clears the receiver in the very clock the packet ends. -/
theorem oversized_keptOut_iff (width : Nat) {settings : Settings} {rx : Receiver (maw width)}
    (idle : rx.Idle settings) (sound : rx.nRxNetErr = false) (free : rx.nRxValid = false)
    {preamble clocks : List RxClock} (legal : Preamble preamble)
    (under : ∀ clock ∈ preamble ++ clocks, clock.Under settings) {frame : List Byte}
    (line : OnLine frame 0 clocks) (gap : frame.length + 9 ≤ clocks.length)
    (oversized : 2 ^ (maw width + 2) < frame.length) :
    KeptOut rx (preamble ++ clocks) ↔ settings.Refuses frame ∨
      (settings.stored frame).length ≤ 2 ^ (maw width + 2) ∧
        ClearedAt clocks (settings.delay + 1 + (settings.stored frame).length) := by
  have buffer := buffer_large width
  obtain ⟨syncs, enough, samples⟩ := legal
  have start : rx.Syncing settings 0 :=
    ⟨idle.quiet, sound, free, idle.pre.rInpkt, idle.pre.oV, by rw [idle.pre.nsyncs]; rfl⟩
  obtain ⟨running, stored, valid⟩ := start.run
    (fun clock member => under clock (List.mem_append_left _ member)) (by omega) samples frame
  have underFrame : ∀ clock ∈ clocks, clock.Under settings := fun clock member =>
    under clock (List.mem_append_right _ member)
  rw [keptOut_append rx stored valid]
  by_cases refuses : settings.Refuses frame
  · have out := refused_keptOut running underFrame line (by omega) (by omega) (by omega) refuses
    exact ⟨fun _ => .inl refuses, fun _ => out⟩
  · rw [accepted_keptOut running underFrame line gap (by omega) refuses]
    simp [refuses]

/-! ### A long frame of zeros -/

/-- The receiver after a reset. -/
def freshReceiver (aw : Nat) : Receiver aw where
  pre := .init
  crc := .init
  mac := .init
  ip := ⟨false, 0, 0, 0, false, 0, 0, false⟩
  wr := .init
  nRxNetErr := false
  lastRxwr := false
  nRxBusy := false
  nRxMiss := false
  nRxCrcerr := false
  nRxErr := false
  nRxBroadcast := false
  nRxValid := false
  nRxLen := 0
  nRxConfigHwMac := false
  nRxConfigHwCrc := false
  nRxConfigIpCheck := false
  rxmem _ := 0

/-- No filter is switched on. -/
def promiscuous : Settings := ⟨0, false, false, false⟩

theorem freshReceiver_idle (aw : Nat) : (freshReceiver aw).Idle promiscuous :=
  ⟨⟨rfl, rfl, rfl⟩, ⟨⟨rfl, rfl, rfl, rfl, rfl, rfl, rfl, rfl, rfl, rfl, rfl, rfl, rfl⟩,
    ⟨rfl, rfl, rfl, rfl, rfl, rfl⟩, ⟨rfl, rfl, rfl, rfl, rfl⟩, rfl, rfl, ⟨rfl, rfl, rfl⟩⟩⟩

/-- A clock with a byte on the line or with none. -/
def sample (iNetRxDv : Bool) (iNetRxd : Byte) : RxClock :=
  ⟨false, iNetRxDv, iNetRxd, false, 0, false, false, false⟩

def wirePreamble : List RxClock := List.replicate 7 (sample true 0x55) ++ [sample true 0xd5]

/-- A frame on the line and the gap after it. -/
def wire (frame : List Byte) : List RxClock :=
  frame.map (sample true) ++ List.replicate 12 (sample false 0)

theorem wire_length (frame : List Byte) : (wire frame).length = frame.length + 12 := by
  simp [wire]

theorem wire_gap (frame : List Byte) : frame.length + 9 ≤ (wire frame).length := by
  rw [wire_length]
  omega

theorem wirePreamble_legal : Preamble wirePreamble := ⟨7, Nat.le_refl 7, rfl⟩

theorem wire_under (frame : List Byte) :
    ∀ clock ∈ wirePreamble ++ wire frame, clock.Under promiscuous := by
  intro clock member
  simp only [wirePreamble, wire, List.mem_append, List.mem_replicate, List.mem_map,
    List.mem_singleton] at member
  rcases member with (⟨-, rfl⟩ | rfl) | ⟨byte, -, rfl⟩ | ⟨-, rfl⟩ <;>
    exact ⟨rfl, rfl, rfl, rfl, rfl⟩

theorem silence_onLine {taken : Nat} (past : frame.length ≤ taken) (count : Nat) :
    OnLine frame taken (List.replicate count (sample false 0)) := by
  induction count generalizing taken with
  | zero => exact trivial
  | succ count ih =>
      refine ⟨⟨?_, fun inside => absurd inside (by omega)⟩, ih (by omega)⟩
      simp only [sample, Bool.false_eq_true, false_iff]
      omega

theorem wire_onLine (frame : List Byte) : OnLine frame 0 (wire frame) := by
  suffices rests : ∀ rest taken, frame.drop taken = rest → taken ≤ frame.length →
      OnLine frame taken (rest.map (sample true) ++ List.replicate 12 (sample false 0)) by
    exact rests frame 0 rfl (Nat.zero_le _)
  intro rest
  induction rest with
  | nil =>
      intro taken drops _
      exact silence_onLine (List.drop_eq_nil_iff.mp drops) 12
  | cons byte rest ih =>
      intro taken drops _
      have inside : taken < frame.length := by
        by_contra past
        rw [List.drop_eq_nil_of_le (by omega)] at drops
        cases drops
      have split := drops
      rw [List.drop_eq_getElem_cons inside, List.cons.injEq] at split
      refine ⟨⟨by simp [sample, inside], fun _ => ?_⟩, ih (taken + 1) split.2 (by omega)⟩
      rw [← split.1]
      simp [sample, List.getD, inside]

/-- Seven bytes more than the smallest buffer. -/
def longFrame : List Byte := List.replicate 2055 0

theorem longFrame_length : longFrame.length = 2055 := List.length_replicate ..

theorem longFrame_oversized : 2 ^ (maw 11 + 2) < longFrame.length := by
  rw [longFrame_length]
  decide

theorem long_frame_judged :
    KeptOut (freshReceiver (maw 11)) (wirePreamble ++ wire longFrame) ↔
      promiscuous.Refuses longFrame ∨
        (promiscuous.stored longFrame).length ≤ 2 ^ (maw 11 + 2) ∧
          ClearedAt (wire longFrame)
            (promiscuous.delay + 1 + (promiscuous.stored longFrame).length) :=
  oversized_keptOut_iff 11 (freshReceiver_idle _) rfl rfl wirePreamble_legal (wire_under _)
    (wire_onLine _) (wire_gap _) longFrame_oversized

/-- With every filter off a long frame goes over its own beginning. -/
theorem long_frame_overwrites : ¬ ∀ (width : Nat) (settings : Settings)
    (rx : Receiver (maw width)) (preamble clocks : List RxClock) (frame : List Byte),
    rx.Idle settings → rx.nRxNetErr = false → rx.nRxValid = false → Preamble preamble →
    (∀ clock ∈ preamble ++ clocks, clock.Under settings) → OnLine frame 0 clocks →
    frame.length + 9 ≤ clocks.length → 2 ^ (maw width + 2) < frame.length →
    KeptOut rx (preamble ++ clocks) := by
  intro always
  have out := always 11 promiscuous (freshReceiver _) wirePreamble (wire longFrame) longFrame
    (freshReceiver_idle _) rfl rfl wirePreamble_legal (wire_under _) (wire_onLine _)
    (wire_gap _) longFrame_oversized
  have size := longFrame_length
  have passes : ¬ promiscuous.Refuses longFrame := by
    rintro (⟨on, -⟩ | ⟨on, -⟩)
    · cases on
    · cases on
  have start : (freshReceiver (maw 11)).Syncing promiscuous 0 :=
    ⟨(freshReceiver_idle _).quiet, rfl, rfl, rfl, rfl, rfl⟩
  obtain ⟨running, stored, valid⟩ := start.run
    (fun clock member => wire_under longFrame clock (List.mem_append_left _ member))
    (show 7 ≤ 0 + 7 by decide) rfl longFrame
  rw [keptOut_append _ stored valid, accepted_keptOut running
    (fun clock member => wire_under longFrame clock (List.mem_append_right _ member))
    (wire_onLine _) (wire_gap _) (by omega) passes] at out
  have kept := RxeCrc.le_kept longFrame
  have bytes := promiscuous.stored_length longFrame
  have whole : RxeHwMac.stripped promiscuous.hwMacOn = 0 := rfl
  have buffer : 2 ^ (maw 11 + 2) = 2048 := rfl
  omega

end ZipVersa.Enet
