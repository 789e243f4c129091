import ZipVersa.Lib.Pulses
import ZipVersa.Ddr.Due
import ZipVersa.Ddr.Idle

/-! The time between an access and the precharge of its bank: 2 clocks after a
read and 4 after a write. No counter of `wbddrsdram` waits for it, so it is kept
by requests that stay with an open row long enough, and by those that come
early enough before a refresh. -/

set_option autoImplicit false

namespace ZipVersa.Ddr

open Lib

/-! ### The condition -/

section

variable (run : Nat → WbDdr) (clocks : Nat → DdrClock) (time : Nat)

/-- Every precharge of this clock comes late enough. -/
def Spaced : Prop :=
  ∀ bank, (run time).closes bank = true →
    Clear 2 (fun past => (run past).accesses false bank) time ∧
      Clear 4 (fun past => (run past).accesses true bank) time

/-- The direction of the requests is not changed while one waits in `r`. -/
def Straight : Prop :=
  (run time).accepts (clocks time) = true → (run time).rPending = true →
    (run time).r.write = (clocks time).we

/-- This row of the bank has its access in `cmd_pipe[2]`, or was written from
there one or two clocks before. -/
def Recent (bank : Bank) (row : Row) : Prop :=
  ∃ past ≤ time, time ≤ past + 2 ∧ (run past).s.row = row ∧
    ∃ write, (run past).leaves (clocks past) write bank = true ∧ (write = true ∨ past = time)

/-- When `need_refresh` is about to rise, no write is due within two clocks and
no read in two, unless `i_wb_cyc` falls before, or the reset comes. -/
def Undisturbed : Prop :=
  (run time).takesOver = true →
    (∀ after, time ≤ after → after < time + 3 → (clocks after).reset = false) →
      ∀ count request, (run time).Due count request → (count = 2 ∨ request.write = true) →
        ∃ after, time ≤ after ∧ after ≤ time + count ∧ (clocks after).drops = true

/-- Unless a reset comes, no request turns away from a row that has just been
accessed, and no refresh is half way to its precharge of all banks too early. -/
def Unhurried : Prop :=
  (clocks (time + 1)).reset = false →
    (∀ bank row, Recent run clocks time bank row →
      ¬(run time).TurnsFrom (clocks time) bank row) ∧
        ∀ past, past + 2 = time → Undisturbed run clocks past

end

/-! ### The runs -/

section Runs

variable (r s : Request) (rNxt sNxt : Row × Bank) (clocks : Nat → DdrClock)

theorem run_sound {time : Nat}
    (straight : ∀ earlier < time, Straight (ddrRun r s rNxt sNxt clocks) clocks earlier) :
    Piped (ddrRun r s rNxt sNxt clocks time) ∧ Stage (ddrRun r s rNxt sNxt clocks time) := by
  induction time with
  | zero => exact ⟨initial_piped r s rNxt sNxt, .resetting rfl rfl initial_resting⟩
  | succ time ih =>
      obtain ⟨piped, stage⟩ := ih fun earlier before => straight earlier (Nat.lt_succ_of_lt before)
      exact ⟨piped.step (straight time (Nat.lt_succ_self time)), stage.step piped⟩

/-- The accesses of a bank around a decision to close it. -/
theorem run_clear (bank : Bank) (time : Nat) :
    let run := ddrRun r s rNxt sNxt clocks
    Clear 2 (fun past => (run past).accesses false bank) (time + 2) ∧
        Clear 4 (fun past => (run past).accesses true bank) (time + 2) ↔
      ∀ row, ¬Recent run clocks time bank row := by
  intro run
  have delayed (write : Bool) := @clear_delayed (fun time => (run time).accesses write bank)
    (fun time => (run time).leaves (clocks time) write bank) rfl
    (run_accesses r s rNxt sNxt clocks write bank)
  rw [delayed, delayed]
  constructor
  · rintro ⟨reads, writes⟩ row ⟨past, before, near, -, write, left, late⟩
    cases write with
    | false =>
        have := reads past (Nat.lt_succ_of_le before) left
        rcases late with never | same
        · cases never
        · omega
    | true =>
        have := writes past (Nat.lt_succ_of_le before) left
        omega
  · intro rare
    refine ⟨fun past before left => ?_, fun past before left => ?_⟩
    · by_contra near
      exact rare _ ⟨past, Nat.le_of_lt_succ before, by omega, rfl, false, left, .inr (by omega)⟩
    · by_contra near
      exact rare _ ⟨past, Nat.le_of_lt_succ before, by omega, rfl, true, left, .inl rfl⟩

/-- The reset script closes its banks far from any access. -/
theorem spaced_decided (time : Nat) : Spaced (ddrRun r s rNxt sNxt clocks) (time + 2) ↔
    ((clocks (time + 1)).reset = false → ∀ bank,
      (ddrRun r s rNxt sNxt clocks time).decides (clocks time) bank = true →
        ∀ row, ¬Recent (ddrRun r s rNxt sNxt clocks) clocks time bank row) := by
  simp only [Spaced, run_clear, run_closes, Bool.and_eq_true, Bool.not_eq_true', Bool.or_eq_true]
  constructor
  · exact fun spaced running bank decided => spaced bank ⟨running, .inr decided⟩
  · rintro unhurried bank ⟨running, resets | decided⟩
    · rintro row ⟨past, before, near, -, write, left, -⟩
      rw [resets_clear r s rNxt sNxt clocks write resets before near] at left
      cases left
    · exact unhurried running bank decided

/-! ### The refreshes of a run -/

/-- A request that is due gets there while `i_wb_cyc` is up. -/
theorem due_reaches {past count : Nat} {request : Request}
    (due : (ddrRun r s rNxt sNxt clocks past).Due count request)
    (straight : ∀ earlier < past + count, Straight (ddrRun r s rNxt sNxt clocks) clocks earlier)
    (held : ∀ after, past ≤ after → after < past + count → (clocks after).drops = false) :
    (ddrRun r s rNxt sNxt clocks (past + count)).Due 0 request := by
  induction count generalizing past with
  | zero => exact due
  | succ count ih =>
      have piped := (run_sound r s rNxt sNxt clocks
        (fun earlier before => straight earlier (by omega) : ∀ earlier < past, _)).1
      have total : past + (count + 1) = past + 1 + count := by omega
      rw [total] at straight held ⊢
      exact ih (due.step piped (held past (Nat.le_refl past) (by omega))) straight
        fun after late early => held after (Nat.le_of_succ_le late) early

/-- And was due, where nothing came behind it. -/
theorem due_came {past count steps : Nat} {request : Request} (within : count + steps ≤ 2)
    (due : (ddrRun r s rNxt sNxt clocks (past + steps)).Due count request)
    (straight : ∀ earlier < past + steps, Straight (ddrRun r s rNxt sNxt clocks) clocks earlier)
    (last : ∀ after, past < after → after ≤ past + steps →
      (ddrRun r s rNxt sNxt clocks after).rPending = false) :
    (ddrRun r s rNxt sNxt clocks past).Due (count + steps) request ∧
      ∀ after, past ≤ after → after < past + steps → (clocks after).drops = false := by
  induction steps generalizing count with
  | zero => exact ⟨due, fun after late early => absurd (Nat.lt_of_le_of_lt late early) (by simp)⟩
  | succ steps ih =>
      have piped := (run_sound r s rNxt sNxt clocks
        (fun earlier before => straight earlier (by omega) : ∀ earlier < past + steps, _)).1
      obtain ⟨held, before⟩ := WbDdr.Due.back due piped
        (last (past + (steps + 1)) (by omega) (Nat.le_refl _)) (by omega)
      obtain ⟨first, early⟩ := ih (by omega) before
        (fun earlier before => straight earlier (by omega))
        fun after late early => last after late (by omega)
      refine ⟨by rwa [Nat.add_right_comm] at first, fun after late soon => ?_⟩
      rcases Nat.lt_succ_iff_lt_or_eq.mp soon with sooner | rfl
      · exact early after late sooner
      · exact held

section Refresh

variable {r s rNxt sNxt clocks} {time : Nat}
  (straight : ∀ earlier < time, Straight (ddrRun r s rNxt sNxt clocks) clocks earlier)
include straight

theorem sound_before {earlier : Nat} (before : earlier ≤ time) :
    Piped (ddrRun r s rNxt sNxt clocks earlier) ∧ Stage (ddrRun r s rNxt sNxt clocks earlier) :=
  run_sound r s rNxt sNxt clocks fun other less => straight other (Nat.lt_of_lt_of_le less before)

/-- A spaced precharge of all banks: an access due late has been dropped. -/
theorem undisturbed_of_spaced
    (spaced : ∀ bank, (ddrRun r s rNxt sNxt clocks time).refreshes (clocks time) bank = true →
      ∀ row, ¬Recent (ddrRun r s rNxt sNxt clocks) clocks time bank row) {past : Nat}
    (two : past + 2 = time) : Undisturbed (ddrRun r s rNxt sNxt clocks) clocks past := by
  subst two
  intro takes running count request due late
  by_contra never
  have held (after : Nat) (first : past ≤ after) (last : after ≤ past + count) :
      (clocks after).drops = false :=
    Bool.eq_false_iff.mpr fun drops => never ⟨after, first, last, drops⟩
  have soon : count ≤ 2 := by cases due <;> decide
  have ⟨piped, stage⟩ := sound_before straight (show past ≤ past + 2 by omega)
  obtain ⟨override, drains⟩ := stage.takesOver takes
  have one := running past (Nat.le_refl past) (by omega)
  have two := running (past + 1) (by omega) (by omega)
  have three := running (past + 2) (by omega) (by omega)
  have fourth : Drains 4 (ddrRun r s rNxt sNxt clocks (past + 1)) :=
    drains.step piped (by decide) override one
  have stays := (override_stays one override).1
  have fifth : Drains 5 (ddrRun r s rNxt sNxt clocks (past + 2)) :=
    fourth.step (sound_before straight (by omega)).1 (by decide) stays two
  have reached := due_reaches r s rNxt sNxt clocks due
    (fun earlier before => straight earlier (by omega))
    fun after first last => held after first (Nat.le_of_lt last)
  obtain ⟨left, same⟩ := reached.leaves (held (past + count) (by omega) (Nat.le_refl _))
  refine spaced request.bank (fifth.refreshes (override_stays two stays).1 three _) request.row
    ⟨past + count, by omega, by omega, by rw [same], request.write, left, ?_⟩
  rcases late with rfl | write
  · exact .inr rfl
  · exact .inl write

/-- The precharge of all banks comes two clocks after the refresh has taken over, and
nothing is in `r` from then on. -/
theorem refreshes_back {bank : Bank}
    (refreshes : (ddrRun r s rNxt sNxt clocks time).refreshes (clocks time) bank = true) :
    ∃ past, past + 2 = time ∧ (ddrRun r s rNxt sNxt clocks past).takesOver = true ∧
      (∀ after, past ≤ after → after < past + 3 → (clocks after).reset = false) ∧
      ∀ after, past < after → after ≤ past + 2 →
        (ddrRun r s rNxt sNxt clocks after).rPending = false := by
  obtain ⟨three, override, fifth⟩ := (sound_before straight (Nat.le_refl time)).2.refreshes refreshes
  obtain ⟨past, rfl⟩ : ∃ past, past + 2 = time := by
    rcases time with _ | _ | past
    · cases override
    · have back := (sound_before straight (Nat.zero_le _)).2.back (by decide) (by decide) override
        fifth.refresh
      cases back.2.1
    · exact ⟨past, rfl⟩
  obtain ⟨two, stays, fourth⟩ := (sound_before straight (show past + 1 ≤ past + 2 by omega)).2.back
    (by decide) (by decide) override fifth.refresh
  obtain ⟨one, begun, third⟩ := (sound_before straight (show past ≤ past + 2 by omega)).2.back
    (by decide) (by decide) stays fourth.refresh
  refine ⟨past, rfl, third.takesOver begun, fun after low high => ?_, fun after low high => ?_⟩
  · rcases (by omega : after = past ∨ after = past + 1 ∨ after = past + 2) with rfl | rfl | rfl
    · exact one
    · exact two
    · exact three
  · rcases (by omega : after = past + 1 ∨ after = past + 2) with rfl | rfl
    · exact fourth.unpending (Nat.le_refl 4)
    · exact fifth.unpending (by decide)

/-- An access before the precharge was due when the refresh took over, and was not dropped. -/
theorem spaced_of_undisturbed
    (undisturbed : ∀ past, past + 2 = time → Undisturbed (ddrRun r s rNxt sNxt clocks) clocks past)
    {bank : Bank}
    (refreshes : (ddrRun r s rNxt sNxt clocks time).refreshes (clocks time) bank = true)
    (row : Row) : ¬Recent (ddrRun r s rNxt sNxt clocks) clocks time bank row := by
  rintro ⟨access, before, near, -, write, left, late⟩
  obtain ⟨past, rfl, takes, running, last⟩ := refreshes_back straight refreshes
  obtain ⟨steps, rfl⟩ : ∃ steps, access = past + steps := ⟨access - past, by omega⟩
  obtain ⟨held, accesses, kind, -⟩ := leaves_iff.mp left
  obtain ⟨due, whole⟩ := @due_came r s rNxt sNxt clocks past 0 steps _ (by omega)
    (.now accesses) (fun earlier less => straight earlier (by omega))
    fun after low high => last after low (by omega)
  rw [Nat.zero_add] at due
  have early : steps = 2 ∨ (ddrRun r s rNxt sNxt clocks (past + steps)).s.write = true := by
    rcases late with writes | now
    · exact .inr (kind.trans writes)
    · exact .inl (by omega)
  obtain ⟨after, low, high, drops⟩ := undisturbed past rfl takes running steps _ due early
  rcases Nat.lt_or_eq_of_le high with sooner | rfl
  · exact absurd ((whole after low sooner).symm.trans drops) Bool.false_ne_true
  · exact absurd (held.symm.trans drops) Bool.false_ne_true

/-- The precharge of all banks is spaced if the accesses before it were due early. -/
theorem refresh_spaced :
    (∀ bank, (ddrRun r s rNxt sNxt clocks time).refreshes (clocks time) bank = true →
        ∀ row, ¬Recent (ddrRun r s rNxt sNxt clocks) clocks time bank row) ↔
      ∀ past, past + 2 = time → Undisturbed (ddrRun r s rNxt sNxt clocks) clocks past :=
  ⟨fun spaced _ two => undisturbed_of_spaced straight spaced two,
    fun undisturbed _ refreshes => spaced_of_undisturbed straight undisturbed refreshes⟩

end Refresh

/-! ### The requests of a run -/

variable {past time : Nat} {bank : Bank} {row : Row}

theorem run_follows {back : Nat} (near : back ≤ 2)
    (accesses : (ddrRun r s rNxt sNxt clocks past).cmdPipe2 = true)
    (running : (clocks past).reset = false)
    (straight : ∀ earlier < past + back, Straight (ddrRun r s rNxt sNxt clocks) clocks earlier)
    (unturned : ∀ after, past ≤ after → after < past + back →
      (clocks (after + 1)).reset = false → ¬(ddrRun r s rNxt sNxt clocks after).TurnsFrom
        (clocks after) (ddrRun r s rNxt sNxt clocks past).s.bank
          (ddrRun r s rNxt sNxt clocks past).s.row) :
    Follows (ddrRun r s rNxt sNxt clocks (past + back)) (clocks (past + back))
      (ddrRun r s rNxt sNxt clocks past).s.bank (ddrRun r s rNxt sNxt clocks past).s.row := by
  have sound (earlier : Nat) (before : earlier ≤ past + back) :=
    run_sound r s rNxt sNxt clocks
      fun other less => straight other (Nat.lt_of_lt_of_le less before)
  obtain ⟨piped, stage⟩ := sound past (Nat.le_add_right past back)
  obtain ⟨override, upto, -⟩ := stage.accessing accesses
  obtain ⟨stays, refreshes⟩ := override_stays running override
  have first := stage.accessed piped accesses (clocks past)
  rcases back with _ | _ | _ | back
  · exact first
  · exact first.step piped stage (fun blocked => blocked.step upto (by decide) override)
      fun running => unturned past (Nat.le_refl past) (Nat.lt_succ_self past) running
  · have second := first.step piped stage (fun blocked => blocked.step upto (by decide) override)
      fun running => unturned past (Nat.le_refl past) (by omega) running
    obtain ⟨piped, stage⟩ := sound (past + 1) (by omega)
    have later : (ddrRun r s rNxt sNxt clocks (past + 1)).refresh.Upto 7 :=
      refreshes.symm ▸ upto.step
    exact second.step piped stage (fun blocked => blocked.step later (by decide) stays)
      fun running => unturned (past + 1) (by omega) (by omega) running
  · omega

theorem run_turns
    (straight : ∀ earlier < time, Straight (ddrRun r s rNxt sNxt clocks) clocks earlier)
    (before : ∀ earlier < time, Unhurried (ddrRun r s rNxt sNxt clocks) clocks earlier)
    (recent : Recent (ddrRun r s rNxt sNxt clocks) clocks time bank row) :
    let ddr := ddrRun r s rNxt sNxt clocks time
    ddr.turnsAway (clocks time) = some bank ∧ ddr.nextBankStatus (clocks time) bank = true ↔
      ddr.TurnsFrom (clocks time) bank row := by
  obtain ⟨past, early, near, rfl, write, left, late⟩ := recent
  obtain ⟨held, accesses, -, rfl⟩ := leaves_iff.mp left
  obtain ⟨back, rfl⟩ : ∃ back, time = past + back := ⟨time - past, by omega⟩
  obtain ⟨piped, stage⟩ := run_sound r s rNxt sNxt clocks straight
  refine (run_follows r s rNxt sNxt clocks (by omega) accesses (drops_held held).1 straight ?_).turns
    piped stage
  intro after low high running
  refine (before after high running).1 _ _ ⟨past, low, by omega, rfl, write, left, ?_⟩
  exact .inl (late.resolve_right (by omega))

theorem spaced_later
    (straight : ∀ earlier < time, Straight (ddrRun r s rNxt sNxt clocks) clocks earlier)
    (before : ∀ earlier < time, Unhurried (ddrRun r s rNxt sNxt clocks) clocks earlier) :
    Spaced (ddrRun r s rNxt sNxt clocks) (time + 2) ↔
      Unhurried (ddrRun r s rNxt sNxt clocks) clocks time := by
  have turns {bank : Bank} {row : Row} := @run_turns r s rNxt sNxt clocks time bank row straight before
  have refreshes := refresh_spaced straight
  rw [spaced_decided, Unhurried]
  refine imp_congr_right fun _ => Iff.trans ?_ (and_congr_right' refreshes)
  simp only [WbDdr.decides, Bool.or_eq_true, Bool.and_eq_true, decide_eq_true_eq]
  constructor
  · intro spaced
    refine ⟨fun bank row recent away => ?_, fun bank refreshes => spaced bank (.inl refreshes)⟩
    exact spaced bank (.inr ((turns recent).mpr away)) row recent
  · rintro ⟨requests, refreshes⟩ bank (taken | decided) row recent
    · exact refreshes bank taken row recent
    · exact requests bank row recent ((turns recent).mp decided)

end Runs

/-! ### Reads after the reset -/

/-- 96765 clocks without a request, then these. -/
def awakened (clocks : List DdrClock) : Nat → DdrClock :=
  endless (List.replicate 96765 idle ++ clocks) held

/-- The run of these clocks from power-up on. -/
def awake (clocks : List DdrClock) : Nat → WbDdr :=
  ddrRun idle.request idle.request (0, 1) (0, 1) (awakened clocks)

theorem awake_core {clocks : List DdrClock} {time : Nat} (within : time ≤ clocks.length) :
    (awake clocks (96765 + time)).core =
      (clocked WbDdr.step (idling (.finished, .waiting 5) false false) (clocks.take time)).core := by
  have reached := @streamed_take _ _ WbDdr.step (List.replicate 96765 idle ++ clocks)
    (96765 + time) (by rw [List.length_append, List.length_replicate]; omega) powerUp held
  rw [List.take_append, List.length_replicate, Nat.add_sub_cancel_left,
    List.take_of_length_le (by rw [List.length_replicate]; omega)] at reached
  exact (congrArg WbDdr.core reached).trans (by rw [clocked_append, core_clocked, first_wait_core])

theorem awakened_later (clocks : List DdrClock) (time : Nat) :
    awakened clocks (96765 + time) = clocks.getD time held := by
  have late : (List.replicate 96765 idle).length ≤ 96765 + time := by
    rw [List.length_replicate]
    omega
  rw [awakened, endless, List.getD_eq_getElem?_getD, List.getElem?_append_right late,
    List.length_replicate, Nat.add_sub_cancel_left, List.getD_eq_getElem?_getD]

theorem awake_idle (clocks : List DdrClock) {time : Nat} (early : time ≤ 96765) :
    ∃ scripts maintenance stalled, (awake clocks time).core = idling scripts maintenance stalled := by
  have reached := @streamed_take _ _ WbDdr.step (List.replicate 96765 idle ++ clocks) time
    (by rw [List.length_append, List.length_replicate]; omega) powerUp held
  rw [List.take_append_of_le_length (by rwa [List.length_replicate]), List.take_replicate,
    Nat.min_eq_left early] at reached
  obtain ⟨maintenance, stalled, same⟩ := idle_core time
  exact ⟨_, maintenance, stalled, (congrArg WbDdr.core reached).trans same⟩

/-- With the direction kept at read, an access is followed by no turn away from
its row, and `need_refresh` rises over empty pipes. -/
def WbDdr.Leisurely (ddr : WbDdr) : Prop :=
  (ddr.cmdPipe2 = true → ¬ddr.TurnsFrom held ddr.s.bank ddr.s.row) ∧
    (ddr.takesOver = true → ddr.cmdPipe0 = false ∧ ddr.cmdPipe1 = false ∧ ddr.cmdPipe2 = false ∧
      ddr.rPending = false)

instance (ddr : WbDdr) : Decidable ddr.Leisurely := inferInstanceAs (Decidable (_ ∧ _))

theorem reads_kept {clocks : List DdrClock} (reads : ∀ clock ∈ clocks, clock.we = false)
    (time : Nat) : (awakened clocks time).we = false ∧ (awake clocks time).r.write = false ∧
      (awake clocks time).s.write = false := by
  have now (time : Nat) : (awakened clocks time).we = false := by
    unfold awakened endless
    rw [List.getD_eq_getElem?_getD]
    cases found : (List.replicate 96765 idle ++ clocks)[time]? with
    | none => rfl
    | some clock =>
        rcases List.mem_append.mp (List.mem_of_getElem? found) with waiting | reading
        · rw [List.eq_of_mem_replicate waiting]
          rfl
        · exact reads clock reading
  induction time with
  | zero => exact ⟨now 0, rfl, rfl⟩
  | succ time ih =>
      obtain ⟨before, first, second⟩ := ih
      refine ⟨now (time + 1), ?_, ?_⟩
      · change ((awake clocks time).step (awakened clocks time)).r.write = false
        simp only [WbDdr.step, DdrClock.request]
        split_ifs
        · exact first
        · exact before
      · change ((awake clocks time).step (awakened clocks time)).s.write = false
        simp only [WbDdr.step]
        split_ifs
        · exact second
        · exact first

theorem leisurely_unhurried {clocks : List DdrClock} (reads : ∀ clock ∈ clocks, clock.we = false)
    {time : Nat} (leisurely : ∀ past ≤ time, (awake clocks past).Leisurely) :
    Unhurried (awake clocks) (awakened clocks) time := by
  intro _
  constructor
  · rintro bank row ⟨past, early, near, rfl, write, left, late⟩ turns
    obtain ⟨-, accesses, kind, rfl⟩ := leaves_iff.mp left
    obtain ⟨-, -, read⟩ := reads_kept reads past
    obtain rfl := late.resolve_left (by rw [← kind, read]; decide)
    exact (leisurely past (Nat.le_refl past)).1 accesses ⟨rfl, turns.2⟩
  · rintro past rfl takes - count request due -
    obtain ⟨idle0, idle1, idle2, pending⟩ := (leisurely past (Nat.le_add_right past 2)).2 takes
    cases due with
    | now accesses => exact absurd (idle2.symm.trans accesses) Bool.false_ne_true
    | next activates => exact absurd (idle1.symm.trans activates) Bool.false_ne_true
    | later precharges => exact absurd (idle0.symm.trans precharges) Bool.false_ne_true
    | opened waits => exact absurd (pending.symm.trans waits) Bool.false_ne_true
    | closed waits => exact absurd (pending.symm.trans waits) Bool.false_ne_true

/-- Two rows of a bank, the second read three clocks after the first. -/
def slowRows : List DdrClock := [read 0 0, held, held, read 0 1] ++ List.replicate 9 held

theorem slow_rows_leisurely {time : Nat} (within : time < 96779) :
    (awake slowRows time).Leisurely := by
  have same (ddr : WbDdr) : ddr.Leisurely ↔ ddr.core.Leisurely := Iff.rfl
  have later : ∀ time : Fin 14, (clocked WbDdr.step (idling (.finished, .waiting 5) false false)
      (slowRows.take time)).core.Leisurely := by decide
  rcases Nat.lt_or_ge time 96765 with early | late
  · obtain ⟨scripts, maintenance, stalled, core⟩ := awake_idle slowRows (Nat.le_of_lt early)
    rw [same, core]
    constructor
    · intro accesses
      cases accesses
    · exact fun _ => ⟨rfl, rfl, rfl, rfl⟩
  · obtain ⟨more, rfl⟩ : ∃ more, time = 96765 + more := ⟨time - 96765, by omega⟩
    rw [same, awake_core (by exact (by omega : more ≤ 13))]
    exact later ⟨more, by omega⟩

theorem awake_closes {clocks : List DdrClock} {time : Nat} (within : time + 1 < clocks.length)
    (running : (clocks.getD (time + 1) held).reset = false) {bank : Bank}
    (decides : (clocked WbDdr.step (idling (.finished, .waiting 5) false false)
      (clocks.take time)).core.decides (clocks.getD time held) bank = true) :
    (awake clocks (96765 + time + 2)).closes bank = true := by
  have same (ddr : WbDdr) (clock : DdrClock) :
      ddr.decides clock bank = ddr.core.decides clock bank := rfl
  have core := @awake_core clocks time (by omega)
  have next : (awakened clocks (96765 + time + 1)).reset = false := by
    rw [Nat.add_assoc, awakened_later]
    exact running
  have closed := run_closes idle.request idle.request (0, 1) (0, 1) (awakened clocks) bank
    (96765 + time)
  rw [next, same, ← awake, core, awakened_later, decides, Bool.or_true] at closed
  exact closed

def twoRows : List DdrClock := [read 0 0, read 0 1, held, held, held]

end ZipVersa.Ddr
