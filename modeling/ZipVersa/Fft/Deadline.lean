import Mathlib.Tactic.Common
import ZipVersa.Fft.Tables
import ZipVersa.Fft.Transform

/-! How long the device takes: from the last sample on `o_int` comes within a
fixed number of clocks, whatever reads and refused writes the bus brings. -/

set_option autoImplicit false

namespace ZipVersa.Fft

open Lib

/-- A clock that neither resets the device nor writes to its control port. -/
def FftClock.undisturbing {lg : Nat} (clock : FftClock lg) : Bool :=
  !clock.reset && !(clock.stb && clock.we && !Wbfft.dataPort clock)

namespace FftRun

section Undisturbed

variable {lg : Nat} {State : Type} {core : Core State} {ckpce : Nat} {run : FftRun lg State}
variable {clock : FftClock lg}

theorem undisturbed (quiet : clock.undisturbing = true) :
    clock.reset = false ∧ run.device.ctrlWrite clock = false := by
  simp only [FftClock.undisturbing, Bool.and_eq_true, Bool.not_eq_true'] at quiet
  obtain ⟨reset, none⟩ := quiet
  refine ⟨reset, ?_⟩
  rw [Wbfft.ctrlWrite, none, Bool.false_and]

theorem undisturbed_live (quiet : clock.undisturbing = true) :
    (run.step core ckpce clock).device.fftReset = false := by
  obtain ⟨reset, none⟩ := @undisturbed _ _ run _ quiet
  simp [step, Wbfft.step, reset, none]

/-- Undisturbed clocks are gentle from the second on. -/
theorem gentle_of_live (live : run.device.fftReset = false) {clocks : List (FftClock lg)}
    (quiet : ∀ clock ∈ clocks, clock.undisturbing = true) (before : List (FftClock lg))
    (clock : FftClock lg) (after : List (FftClock lg)) (split : clocks = before ++ clock :: after) :
    (clocked (step core ckpce) run before).Gentle clock := by
  induction before generalizing run clocks with
  | nil =>
      intro restarts
      rw [clocked_nil, live] at restarts
      cases restarts
  | cons first rest ih =>
      rw [split] at quiet
      have live' : (run.step core ckpce first).device.fftReset = false :=
        undisturbed_live (quiet first List.mem_cons_self)
      exact ih live' (fun other inside => quiet other (List.mem_cons_of_mem first inside)) rfl

end Undisturbed

variable {cmem : Coefficients} {run : FftRun 10 FftMain} {clock : FftClock 10}

/-- Clocks until the last result is stored, at most. -/
def clocksLeft (run : FftRun 10 FftMain) : Nat :=
  3 * (fftDelay + 2 ^ 10 - run.fed.length) +
    if run.device.fftCe then 0 else run.device.fftCeCount + 1

/-- The last result has not come before it is stored. -/
theorem fed_lt (transforming : Transforming cmem run) (running : run.Running (fftCore cmem) 3)
    (phase : run.device.fsmState = .processing) : run.fed.length < fftDelay + 2 ^ 10 := by
  have count := transforming.count
  have place := run.device.wrAddr.isLt
  by_cases empty : run.shown = []
  · rw [empty, List.length_nil] at count
    omega
  · have next := (running.storing.writing phase empty).next
    omega

theorem processing_step (transforming : Transforming cmem run)
    (running : run.Running (fftCore cmem) 3) (live : run.device.fftReset = false)
    (phase : run.device.fsmState = .processing) (reset : clock.reset = false) :
    (run.step (fftCore cmem) 3 clock).device.fsmState = .idle ∨
      (run.step (fftCore cmem) 3 clock).device.fsmState = .processing ∧
        (run.step (fftCore cmem) 3 clock).clocksLeft < run.clocksLeft := by
  have early := fed_lt transforming running phase
  have count := @fftCeCount_step _ _ (fftCore cmem) 3 run clock live reset
  have fires : (run.step (fftCore cmem) 3 clock).device.fftCe =
      (!run.device.fftCe && !decide (0 < run.device.fftCeCount)) := by
    simp [step, Wbfft.step, live, reset, phase, Wbfft.fftCeDelay]
  have fed := congrArg List.length (fed_step (fftCore cmem) 3 clock live)
  rw [fsmState_processing live reset phase]
  split_ifs with last
  · exact .inl rfl
  · refine .inr ⟨rfl, ?_⟩
    rw [clocksLeft, clocksLeft, fed, fires, count, pulses]
    cases ce : run.device.fftCe with
    | true =>
        rw [running.counted.due ce]
        simp only [ite_true, List.length_append, List.length_singleton]
        norm_num
        omega
    | false =>
        rcases Nat.eq_zero_or_pos run.device.fftCeCount with zero | positive
        · simp [zero]
        · simp [positive]

/-- Undisturbed, a run that has all its samples comes to `o_int`, to stay there. -/
theorem finishes {clocks : List (FftClock 10)}
    (transforming : run.device.fftReset = false → Transforming cmem run)
    (sound : run.Sound (fftCore cmem) 3) (live : run.device.fftReset = false)
    (phase : run.device.fsmState = .idle ∨
      run.device.fsmState = .processing ∧ run.clocksLeft ≤ clocks.length)
    (quiet : ∀ clock ∈ clocks, clock.undisturbing = true) :
    (clocked (step (fftCore cmem) 3) run clocks).device.fftReset = false ∧
      (clocked (step (fftCore cmem) 3) run clocks).device.int = true := by
  induction clocks generalizing run with
  | nil =>
      rcases phase with idle | ⟨processing, none⟩
      · exact ⟨live, (sound.running live).storing.int.mpr idle⟩
      · have early := fed_lt (transforming live) (sound.running live) processing
        rw [List.length_nil, clocksLeft] at none
        omega
  | cons clock rest ih =>
      have here := quiet clock List.mem_cons_self
      obtain ⟨reset, _⟩ := @undisturbed _ _ run _ here
      have live' : (run.step (fftCore cmem) 3 clock).device.fftReset = false := undisturbed_live here
      have sound' : (run.step (fftCore cmem) 3 clock).Sound (fftCore cmem) 3 :=
        sound.step (by decide) fftCore_conforms fun restarts => by
          rw [live] at restarts
          cases restarts
      refine ih (fun later => Transforming.step transforming sound later) sound' live' ?_
        fun other inside => quiet other (List.mem_cons_of_mem clock inside)
      rcases phase with idle | ⟨processing, enough⟩
      · exact .inl (fsmState_idle live reset idle)
      · refine (processing_step (transforming live) (sound.running live) live processing reset).imp_right
          fun ⟨still, less⟩ => ⟨still, ?_⟩
        rw [List.length_cons] at enough
        omega

/-- With all samples in, less than 3286 clocks are left. -/
theorem clocksLeft_le (running : run.Running (fftCore cmem) 3)
    (phase : run.device.fsmState = .processing) : run.clocksLeft ≤ 3285 := by
  have enough := (running.delivering.full (by rw [phase]; decide)).1
  have least := running.counted.atMost
  rw [pulses, List.length_append] at enough
  have start : fftDelay = 1094 := rfl
  rw [clocksLeft, start]
  cases ce : run.device.fftCe with
  | true =>
      simp only [ce, ite_true, List.length_singleton] at enough ⊢
      omega
  | false =>
      simp only [ce, Bool.false_eq_true, ite_false, List.length_nil] at enough ⊢
      omega

theorem phase_of_full (delivering : run.Delivering) (full : 2 ^ 10 ≤ run.written.length) :
    run.device.fsmState = .idle ∨ run.device.fsmState = .processing := by
  cases phase : run.device.fsmState with
  | input =>
      have count := (delivering.input phase).2
      have small := run.device.samplesIn.isLt
      omega
  | processing => exact .inr rfl
  | idle => exact .inl rfl

/-! ### A driver -/

section Driver

variable {samples : List (BitVec 32)}

/-- A clock without a request. -/
def nop : FftClock 10 := ⟨false, false, false, 0, 0⟩

def sampleWrite (sample : BitVec 32) : FftClock 10 := ⟨false, true, true, 0x400, sample⟩

/-- Each sample is written and given the time it takes. -/
def load (samples : List (BitVec 32)) : List (FftClock 10) :=
  samples.flatMap fun sample => [sampleWrite sample, nop, nop]

theorem dataPort_sampleWrite (sample : BitVec 32) : Wbfft.dataPort (sampleWrite sample) = true := by
  change (0x400#11).getLsbD 10 = true
  decide

theorem sampleWrite_undisturbing (sample : BitVec 32) :
    (sampleWrite sample).undisturbing = true := by
  rw [FftClock.undisturbing, dataPort_sampleWrite]
  rfl

theorem load_undisturbing {clock : FftClock 10} (inside : clock ∈ load samples) :
    clock.undisturbing = true := by
  obtain ⟨sample, _, one⟩ := List.mem_flatMap.mp inside
  simp only [List.mem_cons, List.not_mem_nil, or_false] at one
  rcases one with rfl | rfl | rfl
  · exact sampleWrite_undisturbing sample
  · rfl
  · rfl

/-- The device takes samples, and the bus is not stalled. -/
structure Open (run : FftRun 10 FftMain) : Prop where
  live : run.device.fftReset = false
  phase : run.device.fsmState = .input
  free : run.device.wbStall = false

theorem Open.written_step (opened : run.Open) (sample : BitVec 32) :
    (run.step (fftCore cmem) 3 (sampleWrite sample)).written = run.written ++ [sample] := by
  have calm := (@undisturbed _ _ run _ (sampleWrite_undisturbing sample)).2
  have writes : run.writesData (sampleWrite sample) = true := by
    rw [writesData, Wbfft.accepts, opened.free, dataPort_sampleWrite]
    rfl
  rw [step, calm, writes]
  rfl

theorem written_nop : (run.step (fftCore cmem) 3 nop).written = run.written := by
  simp [step, Wbfft.ctrlWrite, writesData, Wbfft.accepts, nop]

theorem Open.dataWrite (opened : run.Open) (sample : BitVec 32) :
    run.device.dataWrite (sampleWrite sample) = true := by
  rw [Wbfft.dataWrite, opened.free, opened.phase, dataPort_sampleWrite]
  rfl

/-- Open but for a number of clocks. -/
structure Stalls (clocks : Nat) (run : FftRun 10 FftMain) : Prop where
  live : run.device.fftReset = false
  phase : run.device.fsmState = .input
  stall : run.device.wbStall = true
  count : run.device.stallCount = clocks

theorem Open.write (opened : run.Open) (sample : BitVec 32)
    (room : run.device.samplesIn ≠ BitVec.allOnes 10) :
    Stalls 2 (run.step (fftCore cmem) 3 (sampleWrite sample)) := by
  have data := opened.dataWrite sample
  have calm := (@undisturbed _ _ run _ (sampleWrite_undisturbing sample)).2
  have clear : (sampleWrite sample).reset = false := rfl
  have more : (run.device.samplesIn == BitVec.allOnes 10) = false := beq_false_of_ne room
  obtain ⟨live, phase, free⟩ := opened
  constructor <;> simp only [step, Wbfft.step, live, phase, free, data, calm, clear, more] <;> rfl

theorem Stalls.wait {clocks : Nat} (stalls : Stalls (clocks + 2) run) :
    Stalls (clocks + 1) (run.step (fftCore cmem) 3 nop) := by
  have none : run.device.dataWrite nop = false := rfl
  have calm : run.device.ctrlWrite nop = false := rfl
  have clear : nop.reset = false := rfl
  obtain ⟨live, phase, stall, count⟩ := stalls
  constructor <;> simp [step, Wbfft.step, live, phase, stall, count, none, calm, clear]

theorem Stalls.opens (stalls : Stalls 1 run) : (run.step (fftCore cmem) 3 nop).Open := by
  have none : run.device.dataWrite nop = false := rfl
  have calm : run.device.ctrlWrite nop = false := rfl
  have clear : nop.reset = false := rfl
  obtain ⟨live, phase, stall, count⟩ := stalls
  constructor <;> simp [step, Wbfft.step, live, phase, stall, count, none, calm, clear]

/-- Behind a reset the samples go in one after the other. -/
theorem loaded (opened : run.Open) (sound : run.Sound (fftCore cmem) 3) (empty : run.written = [])
    (room : samples.length < 2 ^ 10) :
    (clocked (step (fftCore cmem) 3) run (load samples)).Open ∧
      (clocked (step (fftCore cmem) 3) run (load samples)).Sound (fftCore cmem) 3 ∧
      (clocked (step (fftCore cmem) 3) run (load samples)).written = samples := by
  induction samples using List.reverseRecOn with
  | nil => exact ⟨opened, sound, empty⟩
  | append_singleton samples sample ih =>
      rw [List.length_append, List.length_singleton] at room
      obtain ⟨opened', sound', written⟩ := ih (by omega)
      have split : load (samples ++ [sample]) = load samples ++ [sampleWrite sample, nop, nop] :=
        List.flatMap_append
      rw [split, clocked_append]
      have more : (clocked (step (fftCore cmem) 3) run (load samples)).device.samplesIn ≠
          BitVec.allOnes 10 := by
        intro top
        have count := ((sound'.running opened'.live).delivering.input opened'.phase).2
        rw [top, BitVec.toNat_allOnes, written] at count
        omega
      have stalls := @Open.write cmem _ opened' sample more
      refine ⟨stalls.wait.opens, ?_, ?_⟩
      · refine sound'.through (by decide) fftCore_conforms
          (gentle_of_live opened'.live fun clock inside => ?_)
        exact @load_undisturbing [sample] clock inside
      · rw [clocked_cons, clocked_cons, clocked_cons, clocked_nil, written_nop, written_nop,
          opened'.written_step, written]

/-- Behind the reset of the core the device is open. -/
theorem open_start (device : Wbfft 10 FftMain) (first : FftClock 10) :
    ((start (fftCore cmem) 3 device first).step (fftCore cmem) 3 nop).Open := by
  constructor <;> simp [step, start, Wbfft.step, Wbfft.ctrlWrite, nop]

/-- All samples, one after the other. -/
def loading (samples : List (BitVec 32)) (last : BitVec 32) : List (FftClock 10) :=
  nop :: (load samples ++ [sampleWrite last])

theorem loading_gentle {device : Wbfft 10 FftMain} {first : FftClock 10} {last : BitVec 32}
    (waits : Nat) (before : List (FftClock 10)) (clock : FftClock 10) (after : List (FftClock 10))
    (split : loading samples last ++ List.replicate waits nop = before ++ clock :: after) :
    (clocked (step (fftCore cmem) 3) (start (fftCore cmem) 3 device first) before).Gentle clock := by
  cases before with
  | nil =>
      cases split
      intro _ _
      rfl
  | cons other rest =>
      rw [loading, List.cons_append, List.cons_append, List.cons.injEq] at split
      obtain ⟨rfl, split⟩ := split
      refine gentle_of_live (open_start device first).live (fun item inside => ?_) rest clock after split
      rw [List.mem_append, List.mem_append, List.mem_singleton] at inside
      rcases inside with (sample | rfl) | wait
      · exact load_undisturbing sample
      · exact sampleWrite_undisturbing last
      · rw [List.eq_of_mem_replicate wait]
        rfl

theorem wait_undisturbing {waits : Nat} (clock : FftClock 10)
    (inside : clock ∈ List.replicate waits nop) : clock.undisturbing = true := by
  rw [List.eq_of_mem_replicate inside]
  rfl

theorem written_wait (waits : Nat) :
    (clocked (step (fftCore cmem) 3) run (List.replicate waits nop)).written = run.written := by
  induction waits generalizing run with
  | zero => rfl
  | succ waits ih => rw [List.replicate_succ, clocked_cons, ih, written_nop]

/-- All samples are in behind the last write. -/
theorem loading_written (device : Wbfft 10 FftMain) (first : FftClock 10) (last : BitVec 32)
    (room : samples.length < 2 ^ 10) :
    (clocked (step (fftCore cmem) 3) (start (fftCore cmem) 3 device first)
        (loading samples last)).device.fftReset = false ∧
      (clocked (step (fftCore cmem) 3) (start (fftCore cmem) 3 device first)
        (loading samples last)).written = samples ++ [last] := by
  have opened := @open_start cmem device first
  have sound : ((start (fftCore cmem) 3 device first).step (fftCore cmem) 3 nop).Sound
      (fftCore cmem) 3 :=
    (start_sound device first).step (by decide) fftCore_conforms fun _ _ => rfl
  obtain ⟨opened', _, written⟩ := loaded opened sound rfl room
  rw [loading, clocked_cons, clocked_append, clocked_cons, clocked_nil]
  refine ⟨undisturbed_live (sampleWrite_undisturbing last), ?_⟩
  rw [opened'.written_step, written]

/-- The session ends with `o_int`. -/
theorem loading_done (device : Wbfft 10 FftMain) (first : FftClock 10) (last : BitVec 32)
    (full : samples.length + 1 = 2 ^ 10) :
    (clocked (step (fftCore cmem) 3) (start (fftCore cmem) 3 device first)
        (loading samples last ++ List.replicate 3285 nop)).device.fftReset = false ∧
      (clocked (step (fftCore cmem) 3) (start (fftCore cmem) 3 device first)
        (loading samples last ++ List.replicate 3285 nop)).device.int = true := by
  obtain ⟨live, written⟩ := @loading_written cmem samples device first last (by omega)
  have gentle := @loading_gentle cmem samples device first last 0
  rw [List.replicate_zero, List.append_nil] at gentle
  have waiting : (start (fftCore cmem) 3 device first).device.fftReset = false →
      Transforming cmem (start (fftCore cmem) 3 device first) := fun ready => by cases ready
  have sound := (start_sound device first).through (by decide) fftCore_conforms gentle
  have phase := phase_of_full (sound.running live).delivering (by
    rw [written, List.length_append, List.length_singleton, full])
  rw [clocked_append]
  refine finishes (Transforming.through (start_sound device first) waiting gentle) sound live
    (phase.imp_right fun processing => ⟨processing, ?_⟩) wait_undisturbing
  rw [List.length_replicate]
  exact clocksLeft_le (sound.running live) processing

end Driver

end FftRun

/-- Once 1024 samples are written `o_int` comes within 3285 clocks, whatever the bus
does but a reset or a control write. -/
theorem wbfft_finishes (cmem : Coefficients) (device : Wbfft 10 FftMain) (first : FftClock 10)
    (clocks later : List (FftClock 10))
    (gentle : ∀ before clock after, clocks = before ++ clock :: after →
      (clocked (FftRun.step (fftCore cmem) 3) (FftRun.start (fftCore cmem) 3 device first)
        before).Gentle clock)
    (live : (clocked (FftRun.step (fftCore cmem) 3) (FftRun.start (fftCore cmem) 3 device first)
      clocks).device.fftReset = false)
    (full : 2 ^ 10 ≤ (clocked (FftRun.step (fftCore cmem) 3)
      (FftRun.start (fftCore cmem) 3 device first) clocks).written.length)
    (quiet : ∀ clock ∈ later, clock.undisturbing = true) (enough : 3285 ≤ later.length) :
    (clocked (FftRun.step (fftCore cmem) 3) (FftRun.start (fftCore cmem) 3 device first)
      (clocks ++ later)).device.int = true := by
  have start : (FftRun.start (fftCore cmem) 3 device first).Sound (fftCore cmem) 3 :=
    FftRun.start_sound device first
  have waiting : (FftRun.start (fftCore cmem) 3 device first).device.fftReset = false →
      Transforming cmem (FftRun.start (fftCore cmem) 3 device first) := fun ready => by
    cases ready
  have sound := start.through (by decide) fftCore_conforms gentle
  have phase := FftRun.phase_of_full (sound.running live).delivering full
  rw [clocked_append]
  refine (FftRun.finishes (Transforming.through start waiting gentle) sound live
    (phase.imp_right fun processing => ⟨processing, ?_⟩) quiet).2
  exact Nat.le_trans (FftRun.clocksLeft_le (sound.running live) processing) enough

/-- The device as it comes up, whatever is in it. -/
def powerUp : Wbfft 10 FftMain :=
  { fftReset := false, wbStall := false, stallCount := 0, fftCeCount := 0, fsmState := .idle,
    samplesIn := 0, fftCe := false, fftInput := 0, fft := default, syncd := false, wrAddr := 0,
    mem := fun _ => 0, wbData := 0, wbAck := false, int := false }

/-- A square wave of 1024 samples but the last, 8192 high and real. -/
def squareWave : List (BitVec 32) :=
  List.replicate 512 0x20000000 ++ List.replicate 511 0xe0000000

theorem squareWave_length : squareWave.length + 1 = 2 ^ 10 := by
  rw [squareWave, List.length_append, List.length_replicate, List.length_replicate]
  decide

theorem mem_squareWave {word : BitVec 32} (inside : word ∈ squareWave) :
    word = 0x20000000 ∨ word = 0xe0000000 :=
  (List.mem_append.mp inside).imp List.eq_of_mem_replicate List.eq_of_mem_replicate

theorem squareWave_short : squareWave.length < 2 ^ 10 := by
  have length := squareWave_length
  omega

theorem wave_finishes :
    (clocked (FftRun.step (fftCore hexFiles) 3) (FftRun.start (fftCore hexFiles) 3 powerUp FftRun.nop)
      (FftRun.loading squareWave 0xe0000000 ++ List.replicate 3285 FftRun.nop)).device.int = true := by
  obtain ⟨live, written⟩ := @FftRun.loading_written hexFiles squareWave powerUp FftRun.nop
    0xe0000000 squareWave_short
  have gentle := @FftRun.loading_gentle hexFiles squareWave powerUp FftRun.nop 0xe0000000 0
  rw [List.replicate_zero, List.append_nil] at gentle
  refine wbfft_finishes hexFiles powerUp FftRun.nop (FftRun.loading squareWave 0xe0000000)
    (List.replicate 3285 FftRun.nop) gentle live ?_ FftRun.wait_undisturbing ?_
  · rw [written, List.length_append, List.length_singleton, squareWave_length]
  · rw [List.length_replicate]

/-- In every run of the device whose data writes keep clear of the resets, at `o_int` the
memory holds, in their order, the results of the network on the samples written. -/
theorem wbfft_memory_is_network (cmem : Coefficients) (device : Wbfft 10 FftMain)
    (first : FftClock 10) (clocks : List (FftClock 10))
    (gentle : ∀ before clock after, clocks = before ++ clock :: after →
      (clocked (FftRun.step (fftCore cmem) 3) (FftRun.start (fftCore cmem) 3 device first)
        before).Gentle clock) :
    let run := clocked (FftRun.step (fftCore cmem) 3) (FftRun.start (fftCore cmem) 3 device first) clocks
    run.device.fftReset = false → run.device.int = true →
      2 ^ 10 ≤ run.written.length ∧ ∀ place : BitVec 10,
        (unpack (run.device.mem place.reverse)).value =
          dif 10 (fftBfly cmem.value) (fun index => (unpack (run.written[index]?.getD 0)).value)
            place.toNat := by
  intro run live high
  have start : (FftRun.start (fftCore cmem) 3 device first).Sound (fftCore cmem) 3 :=
    FftRun.start_sound device first
  have sound : run.Sound (fftCore cmem) 3 := start.through (by decide) fftCore_conforms gentle
  have waiting : (FftRun.start (fftCore cmem) 3 device first).device.fftReset = false →
      Transforming cmem (FftRun.start (fftCore cmem) 3 device first) := fun ready => by cases ready
  exact (Transforming.through start waiting gentle live).memory sound live high

theorem wave_network :
    (unpack ((clocked (FftRun.step (fftCore hexFiles) 3)
        (FftRun.start (fftCore hexFiles) 3 powerUp FftRun.nop)
        (FftRun.loading squareWave 0xe0000000 ++ List.replicate 3285 FftRun.nop)).device.mem
          (BitVec.reverse 5))).value =
      dif 10 (fftBfly hexFiles.value) (fun index => (unpack ((clocked (FftRun.step (fftCore hexFiles) 3)
        (FftRun.start (fftCore hexFiles) 3 powerUp FftRun.nop)
        (FftRun.loading squareWave 0xe0000000 ++ List.replicate 3285 FftRun.nop)).written[index]?.getD 0)).value) 5 := by
  obtain ⟨live, done⟩ := @FftRun.loading_done hexFiles squareWave powerUp FftRun.nop 0xe0000000
    squareWave_length
  exact (wbfft_memory_is_network hexFiles powerUp FftRun.nop
    (FftRun.loading squareWave 0xe0000000 ++ List.replicate 3285 FftRun.nop)
    (FftRun.loading_gentle 3285) live done).2 5

end ZipVersa.Fft
