import ZipVersa.DebugBus.UartFrames
import ZipVersa.Lib.Clocked
import Mathlib.Data.Nat.Init

/-! A byte over the serial link. The transmitter holds each of ten bits for its
`CLOCKS_PER_BAUD`; the receiver finds the middle of the start bit, samples at its own
`CLOCKS_PER_BAUD` from there and is idle again before the stop bit is over. -/

set_option autoImplicit false

namespace ZipVersa.DebugBus

open ZipVersa.Lib

/-! ### A frame -/

/-- The two settings agree to one part in 32, and a bit is not too short. -/
structure Matched (sender receiver : Nat) : Prop where
  slow : 16 ≤ receiver
  above : 32 * (sender - receiver) ≤ receiver
  below : 32 * (receiver - sender) ≤ receiver

/-- A data bit is sampled while it is on the line. -/
theorem Matched.sample {sender receiver : Nat} (matched : Matched sender receiver) {bit : Nat}
    (few : bit ≤ 8) :
    bit * sender ≤ receiver / 2 + bit * receiver ∧
      receiver / 2 + bit * receiver < (bit + 1) * sender := by
  have half := Nat.div_le_self receiver 2
  rw [Nat.succ_mul]
  rcases Nat.le_total sender receiver with faster | slower
  · obtain ⟨drift, rfl⟩ := Nat.exists_eq_add_of_le faster
    have drifted := Nat.mul_le_mul_right drift few
    have below := matched.below
    have slow := matched.slow
    rw [Nat.add_sub_cancel_left] at below
    rw [Nat.mul_add]
    omega
  · obtain ⟨drift, rfl⟩ := Nat.exists_eq_add_of_le slower
    have drifted := Nat.mul_le_mul_right drift few
    have above := matched.above
    have slow := matched.slow
    rw [Nat.add_sub_cancel_left] at above
    rw [Nat.mul_add]
    omega

/-- The stop bit is on the line from a clock before it is sampled until the receiver is idle. -/
theorem Matched.stop {sender receiver : Nat} (matched : Matched sender receiver) :
    9 * sender < receiver / 2 + 9 * receiver ∧
      receiver / 2 + 9 * receiver + 4 ≤ 10 * sender ∧ 16 ≤ sender := by
  obtain ⟨slow, above, below⟩ := matched
  omega

section Frame

variable {timingBits timerBits : Nat} {sender : BitVec timingBits} {receiver : BitVec timerBits}
variable {wave : Nat → SerialLink timingBits timerBits} {inputs : Nat → UartWrite} {start : Nat}
  {byte : BitVec 8}

variable (moves : ∀ time, wave (time + 1) = (wave time).step sender receiver (inputs time))

include moves

theorem tx_moves (time : Nat) :
    (wave (time + 1)).tx = (wave time).tx.step sender (inputs time) := by
  rw [moves]
  rfl

theorem rx_moves (time : Nat) :
    (wave (time + 1)).rx = (wave time).rx.step receiver (wave time).tx.oUartTx := by
  rw [moves]
  rfl

theorem qUart_at (time : Nat) : (wave (time + 1)).rx.qUart = (wave time).tx.oUartTx := by
  rw [moves]
  rfl

theorem qqUart_at (time : Nat) : (wave (time + 2)).rx.qqUart = (wave time).tx.oUartTx := by
  rw [moves]
  exact qUart_at moves time

/-- The synchroniser delays the line by three clocks. -/
theorem ckUart_at (time : Nat) : (wave (time + 3)).rx.ckUart = (wave time).tx.oUartTx := by
  rw [moves]
  exact qqUart_at moves time

/-- A byte that is taken is on the line bit by bit. -/
theorem frame_sent (slow : 1 < sender.toNat) (idle : (wave start).tx.Idle)
    (taken : (wave start).tx.takes (inputs start) = true) :
    ∀ bit ≤ 9, ∀ since < sender.toNat,
      (wave (start + 1 + (bit * sender.toNat + since))).tx.Sending sender (inputs start).iData
        bit since := by
  refine periodic ?_ ?_ ?_
  · rw [Nat.zero_mul, Nat.zero_add, Nat.add_zero, tx_moves moves]
    exact idle.accepts taken slow
  · intro bit since few more sending
    change (wave (start + 1 + (bit * sender.toNat + since) + 1)).tx.Sending _ _ _ _
    rw [tx_moves moves]
    exact sending.hold few more
  · intro bit since few last sending
    have next : start + 1 + ((bit + 1) * sender.toNat + 0) =
        start + 1 + (bit * sender.toNat + since) + 1 := by
      rw [Nat.succ_mul]
      omega
    rw [next, tx_moves moves]
    exact sending.turn few last slow

theorem frame_over (slow : 1 < sender.toNat) (idle : (wave start).tx.Idle)
    (taken : (wave start).tx.takes (inputs start) = true) :
    (wave (start + 1 + 10 * sender.toNat)).tx.Idle := by
  have sending := frame_sent moves slow idle taken 9 (Nat.le_refl 9) (sender.toNat - 1) (by omega)
  have last : start + 1 + 10 * sender.toNat =
      start + 1 + (9 * sender.toNat + (sender.toNat - 1)) + 1 := by omega
  rw [last, tx_moves moves]
  exact sending.ends (by omega)

/-- What the line carries from a clock on. -/
def Carried (wave : Nat → SerialLink timingBits timerBits) (sender start : Nat) (byte : BitVec 8) :
    Prop :=
  ∀ bit ≤ 9, ∀ time, bit * sender ≤ time → time < (bit + 1) * sender →
    (wave (start + 1 + time)).tx.oUartTx = frameBit byte bit

theorem frame_carried (slow : 1 < sender.toNat) (idle : (wave start).tx.Idle)
    (taken : (wave start).tx.takes (inputs start) = true) :
    Carried wave sender.toNat start (inputs start).iData := by
  intro bit few time reached inside
  rw [Nat.succ_mul] at inside
  have sending := frame_sent moves slow idle taken bit few (time - bit * sender.toNat) (by omega)
  rw [Nat.add_sub_of_le reached] at sending
  exact sending.line

theorem frame_busy (slow : 1 < sender.toNat) (idle : (wave start).tx.Idle)
    (taken : (wave start).tx.takes (inputs start) = true) {time : Nat} (later : start < time)
    (inside : time ≤ start + 10 * sender.toNat) : (wave time).accepted (inputs time) = none := by
  have apart : time = start + 1 + (time - start - 1) := by omega
  have few : (time - start - 1) / sender.toNat < 10 := by
    rw [Nat.div_lt_iff_lt_mul (by omega)]
    omega
  have sending := frame_sent moves slow idle taken ((time - start - 1) / sender.toNat) (by omega)
    ((time - start - 1) % sender.toNat) (Nat.mod_lt _ (by omega))
  rw [Nat.mul_comm, Nat.div_add_mod, ← apart] at sending
  rw [SerialLink.accepted, TxUart.oBusy, sending.busy, Bool.not_true, Bool.and_false]
  rfl

theorem ckUart_before (idle : (wave start).rx.Idle) (before : (wave start).tx.oUartTx = true) :
    ∀ time ≤ 3, (wave (start + time)).rx.ckUart = true := by
  intro time inside
  interval_cases time
  · exact idle.third
  · rw [moves]
    exact idle.second
  · rw [moves]
    change (wave (start + 1)).rx.qqUart = true
    rw [moves]
    exact idle.first
  · rw [ckUart_at moves]
    exact before

/-- What the line carried three and four clocks ago. -/
theorem line_at (carried : Carried wave sender.toNat start byte) (bit time : Nat)
    (few : bit ≤ 9) (reached : bit * sender.toNat ≤ time) (inside : time < (bit + 1) * sender.toNat) :
    (wave (start + 3 + time)).rx.qqUart = frameBit byte bit ∧
      (wave (start + 4 + time)).rx.ckUart = frameBit byte bit := by
  have line := carried bit few time reached inside
  constructor
  · rw [← line, ← qqUart_at moves]
    congr 3
    omega
  · rw [← line, ← ckUart_at moves]
    congr 3
    omega

theorem low_at (carried : Carried wave sender.toNat start byte) {time : Nat}
    (inside : time < sender.toNat) :
    (wave (start + 3 + time)).rx.qqUart = false ∧ (wave (start + 4 + time)).rx.ckUart = false :=
  line_at moves carried 0 time (Nat.zero_le 9) (by omega) (by omega)

/-- The change counter counts the clocks of the start bit. -/
theorem chgCounter_counts (idle : (wave start).rx.Idle) (before : (wave start).tx.oUartTx = true)
    (carried : Carried wave sender.toNat start byte) :
    ∀ time, time < sender.toNat → time < receiver.toNat →
      (wave (start + 4 + time)).rx.chgCounter.toNat = time := by
  have size := receiver.isLt
  intro time
  induction time with
  | zero =>
      intro _ _
      have falls : (wave (start + 3)).rx.qqUart = false := (low_at moves carried (by omega)).1
      have high := ckUart_before moves idle before 3 (by omega)
      rw [Nat.add_zero, rx_moves moves]
      simp [RxUart.step, falls, high]
  | succ time ih =>
      intro within short
      have count := ih (by omega) (by omega)
      have low : (wave (start + 4 + time)).rx.qqUart = false := by
        have now : start + 4 + time = start + 3 + (time + 1) := by omega
        rw [now]
        exact (low_at moves carried within).1
      have same : (wave (start + 4 + time)).rx.ckUart = false :=
        (low_at moves carried (by omega)).2
      have room : (wave (start + 4 + time)).rx.chgCounter ≠ BitVec.allOnes timerBits := by
        intro full
        rw [full, BitVec.toNat_allOnes] at count
        omega
      have next : (wave (start + 4 + time + 1)).rx.chgCounter =
          (wave (start + 4 + time)).rx.chgCounter + 1 := by
        rw [rx_moves moves]
        simp [RxUart.step, low, same, room]
      change (wave (start + 4 + time + 1)).rx.chgCounter.toNat = time + 1
      rw [next, BitVec.toNat_add, one_toNat (by omega), count, Nat.mod_eq_of_lt (by omega)]

omit moves in
theorem halfBaud_toNat (slow : 16 ≤ receiver.toNat) :
    (RxUart.halfBaud receiver - 1 - 1).toNat = receiver.toNat / 2 - 2 := by
  have wide := wide_of_slow (show 1 < receiver.toNat by omega)
  have half : (RxUart.halfBaud receiver).toNat = receiver.toNat / 2 := by
    rw [RxUart.halfBaud, BitVec.toNat_ushiftRight, Nat.shiftRight_eq_div_pow]
  have less : (RxUart.halfBaud receiver - 1).toNat = receiver.toNat / 2 - 1 := by
    rw [pred_toNat wide (by omega), half]
  rw [pred_toNat wide (by omega), less]
  omega

section Received

variable (matched : Matched sender.toNat receiver.toNat) (idle : (wave start).rx.Idle)
  (before : (wave start).tx.oUartTx = true) (carried : Carried wave sender.toNat start byte)

include matched idle before carried

/-- The middle of the start bit is flagged, and not before. -/
theorem halfBaudTime_at (time : Nat) (inside : time ≤ receiver.toNat / 2 + 2) :
    (wave (start + 1 + time)).rx.halfBaudTime = decide (receiver.toNat / 2 + 2 = time) := by
  obtain ⟨-, -, enough⟩ := matched.stop
  have slow := matched.slow
  have tracks := @Matched.sample _ _ matched 0 (by omega)
  have now : start + 1 + time = start + time + 1 := by omega
  rw [now, rx_moves moves]
  simp only [RxUart.step]
  by_cases early : time ≤ 3
  · rw [ckUart_before moves idle before time early, eq_comm, Bool.not_true, Bool.false_and,
      decide_eq_false_iff_not]
    omega
  · obtain ⟨counted, rfl⟩ : ∃ counted, time = 4 + counted := ⟨time - 4, by omega⟩
    have low : (wave (start + 4 + counted)).rx.ckUart = false :=
      (low_at moves carried (by omega)).2
    rw [← Nat.add_assoc, low, Bool.not_false, Bool.true_and, decide_eq_decide, BitVec.le_def,
      halfBaud_toNat slow, chgCounter_counts moves idle before carried counted (by omega) (by omega)]
    omega

theorem start_waited :
    ∀ time ≤ receiver.toNat / 2 + 2, (wave (start + 1 + time)).rx.Waiting := by
  have wide := wide_of_slow (Nat.lt_of_lt_of_le (by decide) matched.slow)
  intro time
  induction time with
  | zero =>
      intro _
      rw [Nat.add_zero, rx_moves moves]
      exact idle.toWaiting.waits (.inl idle.third) wide
  | succ time ih =>
      intro inside
      change (wave (start + 1 + time + 1)).rx.Waiting
      rw [rx_moves moves]
      refine (ih (by omega)).waits (.inr ?_) wide
      rw [halfBaudTime_at moves matched idle before carried time (by omega), decide_eq_false_iff_not]
      omega

/-- The receiver begins to count in the middle of the start bit. -/
theorem start_detected :
    (wave (start + 4 + receiver.toNat / 2)).rx.Receiving receiver byte 0 0 := by
  obtain ⟨-, -, enough⟩ := matched.stop
  have slow := matched.slow
  have tracks := @Matched.sample _ _ matched 0 (by omega)
  have waiting := start_waited moves matched idle before carried (receiver.toNat / 2 + 2) (by omega)
  have flagged := halfBaudTime_at moves matched idle before carried
    (receiver.toNat / 2 + 2) (by omega)
  have low : (wave (start + 4 + (receiver.toNat / 2 - 1))).rx.ckUart = false :=
    (low_at moves carried (by omega)).2
  have now : start + 1 + (receiver.toNat / 2 + 2) = start + 4 + (receiver.toNat / 2 - 1) := by omega
  have next : start + 4 + receiver.toNat / 2 = start + 4 + (receiver.toNat / 2 - 1) + 1 := by omega
  rw [now] at waiting flagged
  rw [next, rx_moves moves]
  exact waiting.starts low (by rw [flagged]; simp) (by omega)

/-- From there each data bit is sampled in turn. -/
theorem frame_sampled :
    ∀ bit ≤ 8, ∀ since < receiver.toNat,
      (wave (start + 4 + receiver.toNat / 2 + (bit * receiver.toNat + since))).rx.Receiving receiver
        byte bit since := by
  have slow := matched.slow
  refine periodic ?_ ?_ ?_
  · rw [Nat.zero_mul, Nat.add_zero, Nat.add_zero]
    exact start_detected moves matched idle before carried
  · intro bit since few more receiving
    change (wave (start + 4 + receiver.toNat / 2 + (bit * receiver.toNat + since) + 1)).rx.Receiving
      _ _ _ _
    rw [rx_moves moves]
    exact receiving.hold few more
  · intro bit since few last receiving
    obtain ⟨reached, inside⟩ := @Matched.sample _ _ matched (bit + 1) few
    have moment : start + 4 + receiver.toNat / 2 + (bit * receiver.toNat + since) =
        start + 3 + (receiver.toNat / 2 + (bit + 1) * receiver.toNat) := by
      rw [Nat.succ_mul]
      omega
    have next : start + 4 + receiver.toNat / 2 + ((bit + 1) * receiver.toNat + 0) =
        start + 4 + receiver.toNat / 2 + (bit * receiver.toNat + since) + 1 := by
      rw [Nat.succ_mul]
      omega
    have sample := (line_at moves carried _ _ (Nat.succ_le_succ few.le) reached inside).1
    rw [← moment, frameBit, if_pos few] at sample
    rw [next, rx_moves moves]
    exact receiving.turn few last (by omega) sample

/-- Clocks from a write to the byte's delivery. -/
def latency (receiver : Nat) : Nat := receiver / 2 + 9 * receiver + 4

theorem frame_delivered :
    (wave (start + latency receiver.toNat)).rx.Delivering byte := by
  have slow := matched.slow
  obtain ⟨reached, inside, -⟩ := matched.stop
  have receiving := frame_sampled moves matched idle before carried 8 (Nat.le_refl 8)
    (receiver.toNat - 1) (by omega)
  have stop := (line_at moves carried 9 (receiver.toNat / 2 + 9 * receiver.toNat - 1)
    (Nat.le_refl 9) (by omega) (by omega)).2
  have moment : start + 4 + (receiver.toNat / 2 + 9 * receiver.toNat - 1) =
      start + 4 + receiver.toNat / 2 + (8 * receiver.toNat + (receiver.toNat - 1)) := by omega
  have next : start + latency receiver.toNat =
      start + 4 + receiver.toNat / 2 + (8 * receiver.toNat + (receiver.toNat - 1)) + 1 := by
    rw [latency]
    omega
  rw [moment, frameBit_late byte (Nat.le_refl 9)] at stop
  rw [next, rx_moves moves]
  exact receiving.ends (by omega) (by omega) stop

/-- Then the stop bit keeps it waiting until the next frame may begin. -/
theorem frame_waited :
    ∀ time, start + latency receiver.toNat + 1 ≤ time → time ≤ start + 1 + 10 * sender.toNat →
      (wave time).rx.Waiting := by
  have wide := wide_of_slow (Nat.lt_of_lt_of_le (by decide) matched.slow)
  obtain ⟨reached, room, enough⟩ := matched.stop
  have high (time : Nat) (later : start + latency receiver.toNat ≤ time)
      (inside : time ≤ start + 10 * sender.toNat) : (wave time).rx.ckUart = true := by
    rw [latency] at later
    have stop := (line_at moves carried 9 (time - start - 4) (Nat.le_refl 9) (by omega) (by omega)).2
    rwa [show start + 4 + (time - start - 4) = time by omega,
      frameBit_late byte (Nat.le_refl 9)] at stop
  intro time later
  induction time, later using Nat.le_induction with
  | base =>
      intro _
      rw [rx_moves moves]
      exact (frame_delivered moves matched idle before carried).ends
        (high _ (Nat.le_refl _) (by rw [latency]; omega))
  | succ time later ih =>
      intro inside
      rw [rx_moves moves]
      exact (ih (by omega)).waits (.inl (high time (by omega) (by omega))) wide

/-- Before the next frame may begin the receiver is idle. -/
theorem frame_received :
    (wave (start + 1 + 10 * sender.toNat)).rx.Idle := by
  obtain ⟨reached, room, enough⟩ := matched.stop
  have waiting := frame_waited moves matched idle before carried (start + 1 + 10 * sender.toNat)
    (by rw [latency]; omega) (Nat.le_refl _)
  have stop (time : Nat) (later : 9 * sender.toNat ≤ time) (inside : time < 10 * sender.toNat) :
      (wave (start + 1 + time)).tx.oUartTx = true := by
    rw [carried 9 (Nat.le_refl 9) time later (by omega), frameBit_late byte (Nat.le_refl 9)]
  refine ⟨waiting, ?_, ?_, ?_, ?_⟩
  · have line := stop (10 * sender.toNat - 1) (by omega) (by omega)
    rw [← qUart_at moves] at line
    rwa [show start + 1 + (10 * sender.toNat - 1) + 1 = start + 1 + 10 * sender.toNat by omega]
      at line
  · have line := stop (10 * sender.toNat - 2) (by omega) (by omega)
    rw [← qqUart_at moves] at line
    rwa [show start + 1 + (10 * sender.toNat - 2) + 2 = start + 1 + 10 * sender.toNat by omega]
      at line
  · have line := stop (10 * sender.toNat - 3) (by omega) (by omega)
    rw [← ckUart_at moves] at line
    rwa [show start + 1 + (10 * sender.toNat - 3) + 3 = start + 1 + 10 * sender.toNat by omega]
      at line
  · have line := stop (10 * sender.toNat - 4) (by omega) (by omega)
    rw [← ckUart_at moves] at line
    have last : start + 1 + 10 * sender.toNat = start + 1 + (10 * sender.toNat - 4) + 3 + 1 := by
      omega
    rw [last, rx_moves moves]
    simp [RxUart.step, line]

/-- Within a frame the byte is delivered once. -/
theorem frame_answered {time : Nat} (later : start < time)
    (inside : time ≤ start + 1 + 10 * sender.toNat) :
    (wave time).delivered = if time = start + latency receiver.toNat then some byte else none := by
  have silent (quiet : (wave time).rx.oWr = false) (apart : time ≠ start + latency receiver.toNat) :
      (wave time).delivered =
        if time = start + latency receiver.toNat then some byte else none := by
    rw [SerialLink.delivered, quiet, if_neg apart]
    rfl
  have slow := matched.slow
  rcases Nat.lt_trichotomy time (start + latency receiver.toNat) with early | now | late
  · refine silent ?_ (by omega)
    rw [latency] at early
    by_cases waits : time ≤ start + 1 + (receiver.toNat / 2 + 2)
    · have waiting := start_waited moves matched idle before carried (time - start - 1) (by omega)
      rw [show start + 1 + (time - start - 1) = time by omega] at waiting
      exact waiting.silent
    · have apart : time = start + 4 + receiver.toNat / 2 +
          (time - start - 4 - receiver.toNat / 2) := by omega
      have short : (time - start - 4 - receiver.toNat / 2) / receiver.toNat < 9 := by
        rw [Nat.div_lt_iff_lt_mul (by omega)]
        omega
      have receiving := frame_sampled moves matched idle before carried
        ((time - start - 4 - receiver.toNat / 2) / receiver.toNat) (by omega)
        ((time - start - 4 - receiver.toNat / 2) % receiver.toNat) (Nat.mod_lt _ (by omega))
      rw [Nat.mul_comm, Nat.div_add_mod, ← apart] at receiving
      exact receiving.silent
  · have delivering := frame_delivered moves matched idle before carried
    rw [if_pos now, now, SerialLink.delivered, delivering.wr, delivering.data]
    rfl
  · exact silent (frame_waited moves matched idle before carried time late inside).silent (by omega)

end Received

/-! ### Frame after frame -/

/-- Both ends are idle and every byte taken before has been delivered in its time. -/
structure Settled (wave : Nat → SerialLink timingBits timerBits) (inputs : Nat → UartWrite)
    (receiver now : Nat) : Prop where
  tx : (wave now).tx.Idle
  rx : (wave now).rx.Idle
  done : ∀ time < now, (wave time).accepted (inputs time) ≠ none → time + latency receiver ≤ now
  early : ∀ time ≤ now, time < latency receiver → (wave time).delivered = none
  due : ∀ time, time + latency receiver ≤ now →
    (wave (time + latency receiver)).delivered = (wave time).accepted (inputs time)

omit moves in
theorem takes_of_accepted {time : Nat} :
    (wave time).accepted (inputs time) =
      if (wave time).tx.takes (inputs time) then some (inputs time).iData else none := rfl

theorem Settled.idle (matched : Matched sender.toNat receiver.toNat) {now : Nat}
    (settled : Settled wave inputs receiver.toNat now)
    (free : (wave now).tx.takes (inputs now) = false) :
    Settled wave inputs receiver.toNat (now + 1) := by
  have wide := wide_of_slow (Nat.lt_of_lt_of_le (by decide) matched.slow)
  have none : (wave now).accepted (inputs now) = none := by
    rw [takes_of_accepted, free]
    rfl
  have rx : (wave (now + 1)).rx.Idle := by
    rw [rx_moves moves, settled.tx.line]
    exact settled.rx.waits wide
  have quiet : (wave (now + 1)).delivered = Option.none := by
    rw [SerialLink.delivered, rx.silent]
    rfl
  have positive : 1 < latency receiver.toNat := by rw [latency]; omega
  refine ⟨?_, rx, ?_, ?_, ?_⟩
  · rw [tx_moves moves]
    exact settled.tx.waits free
  · intro time before taken
    by_cases same : time = now
    · rw [same, none] at taken
      exact absurd rfl taken
    · have done := settled.done time (by omega) taken
      omega
  · intro time inside soon
    by_cases same : time = now + 1
    · rw [same, quiet]
    · exact settled.early time (by omega) soon
  · intro time inside
    by_cases same : time + latency receiver.toNat = now + 1
    · rw [same, quiet]
      by_contra taken
      have done := settled.done time (by omega) (fun absent => taken absent.symm)
      omega
    · exact settled.due time (by omega)

theorem Settled.frame (matched : Matched sender.toNat receiver.toNat) {now : Nat}
    (settled : Settled wave inputs receiver.toNat now)
    (taken : (wave now).tx.takes (inputs now) = true) :
    Settled wave inputs receiver.toNat (now + 1 + 10 * sender.toNat) := by
  obtain ⟨-, room, enough⟩ := matched.stop
  have carried := frame_carried moves (by omega) settled.tx taken
  have busy {time : Nat} (later : now < time) (inside : time ≤ now + 10 * sender.toNat) :
      (wave time).accepted (inputs time) = none :=
    frame_busy moves (by omega) settled.tx taken later inside
  have answered {time : Nat} (later : now < time) (inside : time ≤ now + 1 + 10 * sender.toNat) :=
    frame_answered moves matched settled.rx settled.tx.line carried later inside
  refine ⟨frame_over moves (by omega) settled.tx taken,
    frame_received moves matched settled.rx settled.tx.line carried, ?_, ?_, ?_⟩
  · intro time before offered
    rcases Nat.lt_trichotomy time now with past | same | later
    · have done := settled.done time past offered
      omega
    · rw [same, latency]
      omega
    · exact absurd (busy later (by omega)) offered
  · intro time inside soon
    by_cases past : time ≤ now
    · exact settled.early time past soon
    · rw [answered (by omega) inside, if_neg (by omega)]
  · intro time inside
    by_cases past : time + latency receiver.toNat ≤ now
    · exact settled.due time past
    rw [answered (by omega) inside]
    rcases Nat.lt_trichotomy time now with before | same | later
    · rw [if_neg (by omega)]
      by_contra offered
      exact past (settled.done time before (fun absent => offered absent.symm))
    · rw [if_pos (by omega), same, takes_of_accepted, if_pos taken]
    · rw [latency] at inside
      rw [if_neg (by omega), busy later (by omega)]

/-- However far a run has come, it comes to a clock with both ends idle. -/
theorem settles (matched : Matched sender.toNat receiver.toNat)
    (tx : (wave 0).tx.Idle) (rx : (wave 0).rx.Idle) :
    ∀ time, ∃ now, time ≤ now ∧ Settled wave inputs receiver.toNat now := by
  intro time
  induction time with
  | zero =>
      refine ⟨0, Nat.le_refl 0, tx, rx, ?_, ?_, ?_⟩
      · intro time before
        omega
      · intro time start _
        rw [Nat.le_zero.mp start, SerialLink.delivered, rx.silent]
        rfl
      · intro time inside
        rw [latency] at inside
        omega
  | succ time ih =>
      obtain ⟨now, reached, settled⟩ := ih
      cases taken : (wave now).tx.takes (inputs now) with
      | false => exact ⟨now + 1, by omega, settled.idle moves matched taken⟩
      | true => exact ⟨now + 1 + 10 * sender.toNat, by omega, settled.frame moves matched taken⟩

end Frame

/-- For any two settings that agree to one part in 32, whatever is written and whenever:
the receiver delivers the accepted bytes in order, one pulse for each and a fixed number
of clocks later. -/
theorem bytes_delivered {timingBits timerBits : Nat} (sender : BitVec timingBits)
    (receiver : BitVec timerBits) (matched : Matched sender.toNat receiver.toNat)
    (dataReg : BitVec 8) (inputs : Nat → UartWrite) :
    let wave := streamed (SerialLink.step sender receiver) (.initial dataReg) inputs
    (∀ time < latency receiver.toNat, (wave time).delivered = none) ∧
      (∀ time, (wave (time + latency receiver.toNat)).delivered =
        (wave time).accepted (inputs time)) ∧
      ∀ clocks,
        (List.range (latency receiver.toNat + clocks)).filterMap
            (fun time => (wave time).delivered) =
          (List.range clocks).filterMap fun time => (wave time).accepted (inputs time) := by
  intro wave
  have moves (time : Nat) :
      wave (time + 1) = (wave time).step sender receiver (inputs time) := rfl
  have settles := settles moves matched TxUart.initial_idle (RxUart.initial_idle dataReg)
  have early : ∀ time < latency receiver.toNat, (wave time).delivered = none := by
    intro time soon
    obtain ⟨now, reached, settled⟩ := settles time
    exact settled.early time reached soon
  have due (time : Nat) : (wave (time + latency receiver.toNat)).delivered =
      (wave time).accepted (inputs time) := by
    obtain ⟨now, reached, settled⟩ := settles (time + latency receiver.toNat)
    exact settled.due time reached
  refine ⟨early, due, ?_⟩
  intro clocks
  have none : (List.range (latency receiver.toNat)).filterMap (fun time => (wave time).delivered) =
      [] := by
    rw [List.filterMap_eq_nil_iff]
    intro time member
    exact early time (List.mem_range.mp member)
  rw [List.range_add, List.filterMap_append, none, List.nil_append, List.filterMap_map]
  congr 1
  funext time
  rw [Function.comp_apply, Nat.add_comm]
  exact due time

/-- One byte, written behind the first clock. -/
def oneByte (time : Nat) : UartWrite := ⟨time == 1, 0xa5⟩

theorem byte_delivered :
    (streamed (SerialLink.step (31 : BitVec 5) (32 : BitVec 6)) (.initial 0) oneByte 309).delivered =
      some 0xa5 := by
  have delivered := (bytes_delivered (31 : BitVec 5) (32 : BitVec 6)
    ⟨by decide, by decide, by decide⟩ 0 oneByte).2.1 1
  have taken : (streamed (SerialLink.step (31 : BitVec 5) (32 : BitVec 6)) (.initial 0) oneByte
      1).accepted (oneByte 1) = some 0xa5 := by decide
  exact delivered.trans taken

end ZipVersa.DebugBus
