import Bramble.Rtos.StreamBuffer
import Bramble.Rtos.Notify
import Bramble.Firmware.Overrun

/-!
# The receive path down to the ring buffer (`serial.c`, `stream_buffer.c`, `tasks.c`)

`serial_recv` with a timeout, as `canservices_console_task` calls it, with every access of
`xStreamBufferReceive` to the buffer and to the task's notification as a step of its own.  The task
also waits for the ACKs of the console with `ulTaskNotifyTake`, on the same notification.

* `rxRing`             the machine;
* `RxRing.Inv`         the invariant;
* `rxRing_simulation`  its runs are runs of `rxPort`, where the buffer is a list and a receive takes
                       its bytes at once;
* `rxRing_refines`     so every log of the one is a log of the other;
* `sleeps_without_data`, `ack_survives`  the two waits do not disturb each other.
-/

namespace Bramble
open Fifo

/-- program points of the console task, as far as it receives or waits -/
inductive RingPc where
  | outside
  /-- `xStreamBufferReceive`, at its first look at the buffer -/
  | look (n : Nat)
  /-- at the first critical section of `xTaskNotifyWait` -/
  | wait (n : Nat)
  /-- at the second one -/
  | waiting (n : Nat)
  /-- at `xTaskWaitingToReceive = NULL` -/
  | woken (n : Nat)
  /-- at the second look at the buffer -/
  | recheck (n : Nat)
  /-- in `prvReadBytesFromBuffer`, with the bytes copied so far -/
  | read (xCount : Nat) (got : List UInt8)
  /-- back in `serial_recv`, as in `RecvPc` -/
  | test (bs : List UInt8)
  | query (bs : List UInt8)
  | clear (bs : List UInt8)
  /-- at the first critical section of `ulTaskNotifyTake` -/
  | take
  /-- at the second one -/
  | taking
  deriving DecidableEq

structure RxRing where
  sb : StreamBuffer
  xTriggerLevelBytes : Nat
  /-- `xTaskWaitingToReceive` is not `NULL` -/
  xTaskWaitingToReceive : Bool
  overrun : Nat
  rxEnabled : Bool
  notify : TaskNotify
  suspended : Bool
  pc : RingPc
  log : List RxEvent
  /-- the ACKs since the last `ulTaskNotifyTake` -/
  acks : Nat
  /-- the timeout has ended a sleep of the `ulTaskNotifyTake` under way -/
  expired : Bool
  /-- the task has been suspended since it called `ulTaskNotifyTake` -/
  interrupted : Bool

inductive RxRingAct where
  /-- `usart1_isr` with a byte in the data register -/
  | uart (c : UInt8)
  /-- `serial_rx_enable`, `serial_rx_disable` -/
  | enable (on : Bool)
  /-- the task calls `serial_recv` -/
  | recv (bufsize : Nat)
  /-- the task calls `ulTaskNotifyTake` -/
  | take
  /-- one more step of the task -/
  | run
  /-- `xTaskNotifyGive`, on an ACK -/
  | give
  | timeout
  /-- `vTaskSuspend`, `vTaskResume`, on a CONSOLEDISC and a CONSOLECONN -/
  | suspend
  | resume
  deriving DecidableEq

namespace RxRing
open Serial

/-- neither asleep nor suspended -/
def running (s : RxRing) : Bool := !s.notify.blocked && !s.suspended

/-- `sbSEND_COMPLETE_FROM_ISR`, if the trigger level is reached -/
def sendCompleteFromIsr (s : RxRing) : RxRing :=
  if s.xTriggerLevelBytes ≤ s.sb.prvBytesInBuffer ∧ s.xTaskWaitingToReceive = true then
    { s with notify := s.notify.xTaskNotify, xTaskWaitingToReceive := false }
  else s

/-- receive half of `usart1_isr` -/
def usart1Isr (s : RxRing) (c : UInt8) : RxRing :=
  if s.rxEnabled then
    let full := decide (s.sb.xStreamBufferSpacesAvailable = 0)
    if 0 < s.overrun then
      { s with overrun := s.overrun + 1, log := s.log ++ [.byte c full true] }
    else
      let r := s.sb.xStreamBufferSend [c]
      if r.2 = 1 then
        sendCompleteFromIsr { s with sb := r.1, log := s.log ++ [.byte c full false] }
      else { s with sb := r.1, overrun := s.overrun + 1, log := s.log ++ [.byte c full true] }
  else s

/-- `xStreamBufferSetTriggerLevel` -/
def setTriggerLevel (s : RxRing) (xTriggerLevel : Nat) : RxRing :=
  if xTriggerLevel ≤ s.sb.xLength then { s with xTriggerLevelBytes := max xTriggerLevel 1 } else s

def ret (s : RxRing) (bs : List UInt8) : RxRing :=
  { s with pc := .outside, log := s.log ++ [.recv bs s.sb.xStreamBufferSpacesAvailable] }

def taskStep (s : RxRing) : Option RxRing :=
  match s.pc with
  | .outside => none
  | .look n =>
    some (if s.sb.prvBytesInBuffer = 0 then
      { s with notify := s.notify.xTaskNotifyStateClear, xTaskWaitingToReceive := true, pc := .wait n }
    else { s with pc := .read (min s.sb.prvBytesInBuffer n) [] })
  | .wait n => some { s with notify := s.notify.waitEnter, pc := .waiting n }
  | .waiting n => some { s with notify := s.notify.waitExit, pc := .woken n }
  | .woken n => some { s with xTaskWaitingToReceive := false, pc := .recheck n }
  | .recheck n =>
    some (if s.sb.prvBytesInBuffer = 0 then { s with pc := .test [] }
    else { s with pc := .read (min s.sb.prvBytesInBuffer n) [] })
  | .read xCount got =>
    some (if got.length < xCount then
      let a := cell s.sb.xLength s.sb.xTail xCount got.length
      { s with pc := .read xCount (got ++ [s.sb.pucBuffer a]) }
    else { s with sb := s.sb.setTail xCount, pc := .test got })
  | .test bs =>
    some (if 0 < bs.length ∧ 0 < s.overrun then { s with pc := .query bs } else s.ret bs)
  | .query bs =>
    some (if rxOverrunResume ≤ s.sb.xStreamBufferSpacesAvailable then { s with pc := .clear bs }
    else s.ret bs)
  | .clear bs => some ({ s with overrun := 0 }.ret bs)
  | .take => some { s with notify := s.notify.takeEnter, pc := .taking }
  | .taking => some { s with notify := s.notify.takeExit, acks := 0, pc := .outside }

def step (s : RxRing) : RxRingAct → Option RxRing
  | .uart c => some (s.usart1Isr c)
  | .enable on => some { s with rxEnabled := on }
  | .recv n =>
    if s.running = true ∧ s.pc = .outside ∧ 1 ≤ n then
      some { s.setTriggerLevel n with pc := .look n }
    else none
  | .take =>
    if s.running = true ∧ s.pc = .outside then some { s with pc := .take, expired := false, interrupted := false }
    else none
  | .run => if s.running then s.taskStep else none
  | .give => some { s with notify := s.notify.xTaskNotifyGive, acks := s.acks + 1 }
  | .timeout =>
    if s.notify.blocked then some { s with notify := s.notify.expire, expired := true } else none
  | .suspend =>
    some { s with notify := s.notify.suspend, suspended := true, interrupted := true }
  | .resume => some { s with suspended := false }

/-- after `serial_init`; the task is created suspended -/
def init (mem : Nat → UInt8) : RxRing where
  sb := .xStreamBufferCreate mem rxQueueDepth
  xTriggerLevelBytes := 1
  xTaskWaitingToReceive := false
  overrun := 0
  rxEnabled := false
  notify := .init
  suspended := true
  pc := .outside
  log := []
  acks := 0
  expired := false
  interrupted := false

end RxRing

def rxRing : Machine RxRing RxRingAct := ⟨RxRing.step⟩

/-! ## the invariant -/

namespace RxRing
open Serial

/-- `serial_recv` has been asked for `n` bytes, and has set the trigger level -/
def Asked (s : RxRing) (n : Nat) : Prop :=
  1 ≤ n ∧ (n ≤ rxQueueDepth → s.xTriggerLevelBytes = n)

/-- Who waits for what, at a program point. -/
def AtPoint (s : RxRing) (q : List UInt8) : Prop :=
  match s.pc with
  -- a notification that was sent before the task sleeps is pending
  | .wait n => s.Asked n ∧ s.notify.blocked = false ∧
      (s.xTaskWaitingToReceive = true ∨ s.notify.ucNotifyState = .received)
  | .waiting n => s.Asked n ∧ (s.notify.blocked = true → s.xTaskWaitingToReceive = true)
  | .woken n => s.Asked n ∧ s.notify.blocked = false
  | .look n | .recheck n => s.Asked n ∧ s.xTaskWaitingToReceive = false ∧ s.notify.blocked = false
  | .taking => s.xTaskWaitingToReceive = false ∧
      (s.notify.blocked = true → s.notify.ulNotifiedValue = 0) ∧
      (s.notify.blocked = false → s.expired = false → s.interrupted = false → 0 < s.acks)
  | .read xCount got => (s.xTaskWaitingToReceive = false ∧ s.notify.blocked = false) ∧
      1 ≤ xCount ∧ xCount ≤ q.length ∧ got.length ≤ xCount ∧ got = q.take got.length
  | _ => s.xTaskWaitingToReceive = false ∧ s.notify.blocked = false

/-- the invariant, with the contents `q` of the buffer -/
structure Inv (s : RxRing) (q : List UInt8) : Prop where
  length : s.sb.xLength = rxQueueDepth + 1
  has : s.sb.Has q
  trigger : 1 ≤ s.xTriggerLevelBytes
  short : s.xTaskWaitingToReceive = true → q.length < s.xTriggerLevelBytes
  wf : s.notify.WF
  acks : s.notify.ulNotifiedValue = UInt32.ofNat s.acks
  point : s.AtPoint q

namespace Inv
variable {s t : RxRing} {q : List UInt8}

theorem spaces (h : Inv s q) : s.sb.xStreamBufferSpacesAvailable = rxQueueDepth - q.length := by
  rw [h.has.spaces, h.length, Nat.add_sub_cancel]

theorem le (h : Inv s q) : q.length ≤ rxQueueDepth := by
  have hroom := h.has.room
  rw [h.length] at hroom
  exact Nat.le_of_lt_succ hroom

/-- More bytes, while nobody waits for them. -/
theorem arrive (h : Inv s q) {sb : StreamBuffer} {c : UInt8} (hlen : sb.xLength = s.sb.xLength)
    (hhas : sb.Has (q ++ [c])) (overrun : Nat) (log : List RxEvent)
    (hshort : s.xTaskWaitingToReceive = true → q.length + 1 < s.xTriggerLevelBytes) :
    Inv { s with sb := sb, overrun := overrun, log := log } (q ++ [c]) := by
  refine ⟨hlen.trans h.length, hhas, h.trigger, fun hw => ?_, h.wf, h.acks, ?_⟩
  · rw [List.length_append, List.length_singleton]
    exact hshort hw
  · have hpoint := h.point
    unfold AtPoint at hpoint ⊢
    simp only
    cases hpc : s.pc <;> rw [hpc] at hpoint
    case read xCount got =>
      obtain ⟨hidle, hpos, hcount, hgot, htake⟩ := hpoint
      refine ⟨hidle, hpos, ?_, hgot, ?_⟩
      · rw [List.length_append]
        exact Nat.le_add_right_of_le hcount
      · rw [List.take_append_of_le_length (hgot.trans hcount)]
        exact htake
    all_goals exact hpoint

/-- Enough bytes: the task that waits for them is notified. -/
theorem wake (h : Inv s q) {sb : StreamBuffer} {c : UInt8} (hlen : sb.xLength = s.sb.xLength)
    (hhas : sb.Has (q ++ [c])) (log : List RxEvent) (hw : s.xTaskWaitingToReceive = true) :
    Inv { s with
      sb := sb, log := log, notify := s.notify.xTaskNotify, xTaskWaitingToReceive := false }
      (q ++ [c]) := by
  refine ⟨hlen.trans h.length, hhas, h.trigger, fun hf => absurd hf Bool.false_ne_true, h.wf.notify,
    h.acks, ?_⟩
  have hpoint := h.point
  have hunblocked := h.wf.unblocked
  unfold AtPoint at hpoint ⊢
  simp only
  cases hpc : s.pc <;> rw [hpc] at hpoint
  case wait => exact ⟨hpoint.1, hunblocked, .inr rfl⟩
  case waiting => exact ⟨hpoint.1, fun hb => absurd (hunblocked.symm.trans hb) Bool.false_ne_true⟩
  case woken => exact ⟨hpoint.1, hunblocked⟩
  case look => exact absurd (hw.symm.trans hpoint.2.1) Bool.noConfusion
  case recheck => exact absurd (hw.symm.trans hpoint.2.1) Bool.noConfusion
  case taking => exact absurd (hw.symm.trans hpoint.1) Bool.noConfusion
  case read => exact absurd (hw.symm.trans hpoint.1.1) Bool.noConfusion
  all_goals exact absurd (hw.symm.trans hpoint.1) Bool.noConfusion

theorem relog (h : Inv s q) (overrun : Nat) (log : List RxEvent) :
    Inv { s with overrun := overrun, log := log } q :=
  ⟨h.length, h.has, h.trigger, h.short, h.wf, h.acks, h.point⟩

/-- What can become of a byte. -/
theorem isr_cases (h : Inv s q) (c : UInt8) (he : s.rxEnabled = true) :
    (0 < s.overrun ∧ s.usart1Isr c = { s with
      overrun := s.overrun + 1
      log := s.log ++ [.byte c (decide (rxQueueDepth ≤ q.length)) true] }) ∨
    (s.overrun = 0 ∧ q.length = rxQueueDepth ∧ s.usart1Isr c = { s with
      overrun := s.overrun + 1, log := s.log ++ [.byte c true true] }) ∨
    (s.overrun = 0 ∧ q.length < rxQueueDepth ∧ ∃ sb, sb.xLength = s.sb.xLength ∧
      sb.Has (q ++ [c]) ∧ s.usart1Isr c =
        sendCompleteFromIsr { s with sb := sb, log := s.log ++ [.byte c false false] }) := by
  have hfull : decide (s.sb.xStreamBufferSpacesAvailable = 0) = decide (rxQueueDepth ≤ q.length) := by
    rw [h.spaces]
    exact decide_eq_decide.mpr Nat.sub_eq_zero_iff_le
  unfold usart1Isr
  rw [if_pos he, hfull]
  simp only
  by_cases ho : 0 < s.overrun
  · rw [if_pos ho]
    exact .inl ⟨ho, rfl⟩
  rw [if_neg ho]
  have h0 : s.overrun = 0 := Nat.eq_zero_of_not_pos ho
  rcases Nat.eq_or_lt_of_le h.le with hlen | hlen
  · have hsend : s.sb.xStreamBufferSend [c] = (s.sb, 0) := by
      unfold StreamBuffer.xStreamBufferSend StreamBuffer.prvWriteMessageToBuffer
      rw [h.spaces, hlen, Nat.sub_self, if_pos rfl]
    rw [hsend, if_neg Nat.zero_ne_one, decide_eq_true hlen.ge]
    exact .inr (.inl ⟨h0, hlen, rfl⟩)
  · obtain ⟨hsent, hcount⟩ := h.has.send [c]
    rw [h.length, Nat.add_sub_cancel, List.length_singleton] at hcount
    rw [h.length, Nat.add_sub_cancel,
      List.take_of_length_le (by rw [List.length_singleton]; omega)] at hsent
    rw [if_pos (by omega), decide_eq_false (Nat.not_le.mpr hlen)]
    exact .inr (.inr ⟨h0, hlen, _, s.sb.length_send [c], hsent, rfl⟩)

theorem isr (h : Inv s q) (c : UInt8) : ∃ q', Inv (s.usart1Isr c) q' := by
  by_cases he : s.rxEnabled = true
  swap
  · refine ⟨q, ?_⟩
    unfold usart1Isr
    rw [if_neg he]
    exact h
  rcases h.isr_cases c he with ⟨_, heq⟩ | ⟨_, _, heq⟩ | ⟨_, _, sb, hlen, hsent, heq⟩
  · exact ⟨q, heq ▸ h.relog _ _⟩
  · exact ⟨q, heq ▸ h.relog _ _⟩
  · refine ⟨q ++ [c], heq ▸ ?_⟩
    unfold sendCompleteFromIsr
    rw [hsent.bytes, List.length_append, List.length_singleton]
    split
    · rename_i hwake
      exact h.wake hlen hsent _ hwake.2
    · rename_i hno
      refine h.arrive hlen hsent s.overrun _ fun hw => ?_
      by_contra hge
      exact hno ⟨Nat.le_of_not_lt hge, hw⟩

/-- The task goes on, awake and with nobody to notify it from `usart1_isr`. -/
theorem goto (h : Inv s q) (hidle : s.xTaskWaitingToReceive = false ∧ s.notify.blocked = false)
    (overrun : Nat) (log : List RxEvent) {pc : RingPc}
    (hpc : ∀ t : RxRing, t.pc = pc → t.xTaskWaitingToReceive = false → t.notify.blocked = false →
      t.AtPoint q) :
    Inv { s with overrun := overrun, log := log, pc := pc } q :=
  ⟨h.length, h.has, h.trigger, h.short, h.wf, h.acks, hpc _ rfl hidle.1 hidle.2⟩

theorem atPoint_idle {pc : RingPc}
    (hpc : (∃ bs, pc = .test bs ∨ pc = .query bs ∨ pc = .clear bs) ∨ pc = .outside ∨ pc = .take)
    (t : RxRing) (ht : t.pc = pc) (hw : t.xTaskWaitingToReceive = false)
    (hb : t.notify.blocked = false) : t.AtPoint q := by
  unfold AtPoint
  rw [ht]
  rcases hpc with ⟨bs, rfl | rfl | rfl⟩ | rfl | rfl <;> exact ⟨hw, hb⟩

/-- `prvReadBytesFromBuffer` begins -/
theorem begin_read (h : Inv s q) (hidle : s.xTaskWaitingToReceive = false ∧ s.notify.blocked = false)
    {n : Nat} (hn : 1 ≤ n) (hne : ¬ s.sb.prvBytesInBuffer = 0) :
    Inv { s with pc := .read (min s.sb.prvBytesInBuffer n) [] } q := by
  rw [h.has.bytes] at hne ⊢
  refine h.goto hidle s.overrun s.log fun t ht hw hb => ?_
  unfold AtPoint
  rw [ht]
  exact ⟨⟨hw, hb⟩, by omega, Nat.min_le_left _ _, Nat.zero_le _, rfl⟩

/-- `serial_recv` returns -/
theorem ret (h : Inv s q) (hidle : s.xTaskWaitingToReceive = false ∧ s.notify.blocked = false)
    (bs : List UInt8) : Inv (s.ret bs) q :=
  h.goto hidle s.overrun _ (atPoint_idle (.inr (.inl rfl)))

/-- the last byte has been copied -/
theorem release (h : Inv s q) {xCount : Nat} {got : List UInt8} (hpc : s.pc = .read xCount got) :
    Inv { s with sb := s.sb.setTail xCount, pc := .test got } (q.drop xCount) := by
  have hpoint := h.point
  unfold AtPoint at hpoint
  rw [hpc] at hpoint
  obtain ⟨hidle, _, hcount, _⟩ := hpoint
  exact ⟨h.length, h.has.setTail hcount, h.trigger,
    fun hw => absurd (hidle.1.symm.trans hw) Bool.false_ne_true, h.wf, h.acks, hidle⟩

theorem read (h : Inv s q) {xCount : Nat} {got : List UInt8} (hpc : s.pc = .read xCount got)
    (hlt : got.length < xCount) :
    Inv { s with
      pc := .read xCount
        (got ++ [s.sb.pucBuffer (cell s.sb.xLength s.sb.xTail xCount got.length)]) } q := by
  have hpoint := h.point
  unfold AtPoint at hpoint
  rw [hpc] at hpoint
  obtain ⟨hidle, hpos, hcount, _, htake⟩ := hpoint
  have hroom := h.has.room
  refine h.goto hidle s.overrun s.log fun t ht hw hb => ?_
  unfold AtPoint
  rw [ht]
  refine ⟨⟨hw, hb⟩, hpos, hcount, ?_, ?_⟩
  · rw [List.length_append, List.length_singleton]
    exact hlt
  · rw [cell_eq_mod h.has.tail hlt (by omega), List.length_append, List.length_singleton,
      ← h.has.stored.read (by omega), ← htake]

/-- The task will sleep: what was notified before does not count. -/
theorem register (h : Inv s q) {n : Nat} (hn : s.Asked n) (hb : s.notify.blocked = false)
    (hempty : s.sb.prvBytesInBuffer = 0) :
    Inv { s with
      notify := s.notify.xTaskNotifyStateClear, xTaskWaitingToReceive := true, pc := .wait n } q := by
  rw [h.has.bytes] at hempty
  have hawake : s.notify.xTaskNotifyStateClear.blocked = false :=
    TaskNotify.blocked_stateClear.trans hb
  refine ⟨h.length, h.has, h.trigger, fun _ => by rw [hempty]; exact h.trigger, fun hb => ?_,
    TaskNotify.value_stateClear.trans h.acks, hn, hawake, .inl rfl⟩
  exact absurd (hawake.symm.trans hb) Bool.false_ne_true

/-- first half of the wait for bytes -/
theorem wait (h : Inv s q) {n : Nat} (hpc : s.pc = .wait n) :
    Inv { s with notify := s.notify.waitEnter, pc := .waiting n } q := by
  have hpoint := h.point
  unfold AtPoint at hpoint
  rw [hpc] at hpoint
  obtain ⟨hn, hb, hpending⟩ := hpoint
  exact ⟨h.length, h.has, h.trigger, h.short, h.wf.waitEnter,
    TaskNotify.value_waitEnter.trans h.acks, hn,
    fun hsleeps => hpending.resolve_right (TaskNotify.blocked_waitEnter hb hsleeps)⟩

/-- first half of the wait for an ACK -/
theorem await (h : Inv s q) (hpc : s.pc = .take) :
    Inv { s with notify := s.notify.takeEnter, pc := .taking } q := by
  have hpoint := h.point
  unfold AtPoint at hpoint
  rw [hpc] at hpoint
  have hsleeps := TaskNotify.blocked_takeEnter hpoint.2
  refine ⟨h.length, h.has, h.trigger, h.short, h.wf.takeEnter,
    TaskNotify.value_takeEnter.trans h.acks, hpoint.1,
    fun hb => TaskNotify.value_takeEnter.trans (hsleeps.mp hb), fun hb _ _ => ?_⟩
  refine Nat.pos_of_ne_zero fun h0 => ?_
  have hzero : s.notify.ulNotifiedValue = 0 := by
    rw [h.acks, show s.acks = 0 from h0]
    rfl
  exact absurd ((hsleeps.mpr hzero).symm.trans hb) Bool.noConfusion

theorem task (h : Inv s q) (hrun : s.running = true) (hs : s.taskStep = some t) :
    ∃ q', Inv t q' := by
  have hpoint := h.point
  unfold AtPoint at hpoint
  unfold taskStep at hs
  unfold running at hrun
  rw [Bool.and_eq_true, Bool.not_eq_true', Bool.not_eq_true'] at hrun
  cases hpc : s.pc with
  | outside =>
    rw [hpc] at hs
    cases hs
  | look n =>
    rw [hpc] at hs hpoint
    cases hs
    obtain ⟨hn, hidle⟩ := hpoint
    refine ⟨q, ?_⟩
    split
    · rename_i hempty
      exact h.register hn hidle.2 hempty
    · rename_i hne
      exact h.begin_read hidle hn.1 hne
  | wait n =>
    rw [hpc] at hs
    cases hs
    exact ⟨q, h.wait hpc⟩
  | waiting n =>
    rw [hpc] at hs hpoint
    cases hs
    exact ⟨q, h.length, h.has, h.trigger, h.short,
      fun hb => absurd (hrun.1.symm.trans hb) Bool.false_ne_true, h.acks, hpoint.1, hrun.1⟩
  | woken n =>
    rw [hpc] at hs hpoint
    cases hs
    exact ⟨q, h.length, h.has, h.trigger, fun hw => absurd hw Bool.false_ne_true, h.wf, h.acks,
      hpoint.1, rfl, hpoint.2⟩
  | recheck n =>
    rw [hpc] at hs hpoint
    cases hs
    obtain ⟨hn, hidle⟩ := hpoint
    refine ⟨q, ?_⟩
    split
    · exact h.goto hidle s.overrun s.log (atPoint_idle (.inl ⟨[], .inl rfl⟩))
    · rename_i hne
      exact h.begin_read hidle hn.1 hne
  | read xCount got =>
    rw [hpc] at hs
    cases hs
    split
    · rename_i hlt
      exact ⟨q, h.read hpc hlt⟩
    · exact ⟨q.drop xCount, h.release hpc⟩
  | test bs =>
    rw [hpc] at hs hpoint
    cases hs
    refine ⟨q, ?_⟩
    split
    · exact h.goto hpoint s.overrun s.log (atPoint_idle (.inl ⟨bs, .inr (.inl rfl)⟩))
    · exact h.ret hpoint bs
  | query bs =>
    rw [hpc] at hs hpoint
    cases hs
    refine ⟨q, ?_⟩
    split
    · exact h.goto hpoint s.overrun s.log (atPoint_idle (.inl ⟨bs, .inr (.inr rfl)⟩))
    · exact h.ret hpoint bs
  | clear bs =>
    rw [hpc] at hs hpoint
    cases hs
    exact ⟨q, (h.relog 0 s.log).ret hpoint bs⟩
  | take =>
    rw [hpc] at hs
    cases hs
    exact ⟨q, h.await hpc⟩
  | taking =>
    rw [hpc] at hs hpoint
    cases hs
    exact ⟨q, h.length, h.has, h.trigger, h.short,
      fun hb => absurd (hrun.1.symm.trans hb) Bool.false_ne_true, rfl, hpoint.1, hrun.1⟩

/-- An event that wakes the task, or leaves it awake, and takes nothing that is pending away. -/
theorem event (h : Inv s q) {notify : TaskNotify} {suspended expired interrupted : Bool}
    {acks : Nat}
    (hb : notify.blocked = false)
    (hreceived : s.notify.ucNotifyState = .received → notify.ucNotifyState = .received)
    (hvalue : notify.ulNotifiedValue = UInt32.ofNat acks)
    (hacks : s.notify.blocked = true ∨ 0 < s.acks → expired = false → interrupted = false → 0 < acks)
    (hexpired : expired = false → s.expired = false)
    (hinterrupted : interrupted = false → s.interrupted = false) :
    Inv { s with
      notify := notify, suspended := suspended, acks := acks, expired := expired
      interrupted := interrupted } q := by
  refine ⟨h.length, h.has, h.trigger, h.short, fun ht => ?_, hvalue, ?_⟩
  · exact absurd (hb.symm.trans ht) Bool.false_ne_true
  have hpoint := h.point
  unfold AtPoint at hpoint ⊢
  simp only
  cases hpc : s.pc <;> rw [hpc] at hpoint
  case wait => exact ⟨hpoint.1, hb, hpoint.2.2.imp id hreceived⟩
  case waiting => exact ⟨hpoint.1, fun ht => absurd (hb.symm.trans ht) Bool.false_ne_true⟩
  case woken => exact ⟨hpoint.1, hb⟩
  case look => exact ⟨hpoint.1, hpoint.2.1, hb⟩
  case recheck => exact ⟨hpoint.1, hpoint.2.1, hb⟩
  case read => exact ⟨⟨hpoint.1.1, hb⟩, hpoint.2⟩
  case taking =>
    refine ⟨hpoint.1, fun ht => absurd (hb.symm.trans ht) Bool.false_ne_true, fun _ he hi => ?_⟩
    apply hacks _ he hi
    cases hs : s.notify.blocked with
    | true => exact .inl rfl
    | false => exact .inr (hpoint.2.2 hs (hexpired he) (hinterrupted hi))
  all_goals exact ⟨hpoint.1, hb⟩

theorem give (h : Inv s q) :
    Inv { s with notify := s.notify.xTaskNotifyGive, acks := s.acks + 1 } q := by
  refine h.event h.wf.unblocked (fun _ => rfl) ?_ (fun _ _ _ => Nat.succ_pos _) id id
  show s.notify.ulNotifiedValue + 1 = _
  rw [h.acks, UInt32.ofNat_add]
  rfl

/-- the task calls `serial_recv` -/
theorem recv (h : Inv s q) (hpc : s.pc = .outside) {n : Nat} (hn : 1 ≤ n) :
    Inv { s.setTriggerLevel n with pc := .look n } q := by
  have hpoint := h.point
  unfold AtPoint at hpoint
  rw [hpc] at hpoint
  unfold setTriggerLevel
  split
  · exact ⟨h.length, h.has, Nat.le_max_right _ _,
      fun hw => absurd (hpoint.1.symm.trans hw) Bool.false_ne_true, h.wf, h.acks,
      ⟨hn, fun _ => Nat.max_eq_left hn⟩, hpoint⟩
  · rename_i hlarge
    have hlength := h.length
    exact ⟨h.length, h.has, h.trigger, h.short, h.wf, h.acks, ⟨hn, fun hle => by omega⟩, hpoint⟩

theorem step {a : RxRingAct} (h : Inv s q) (hs : s.step a = some t) : ∃ q', Inv t q' := by
  cases a with
  | uart c =>
    cases hs
    exact h.isr c
  | enable on =>
    cases hs
    exact ⟨q, h.length, h.has, h.trigger, h.short, h.wf, h.acks, h.point⟩
  | recv n =>
    obtain ⟨⟨_, hpc, hn⟩, hs⟩ := Option.ite_none_right_eq_some.mp hs
    cases hs
    exact ⟨q, h.recv hpc hn⟩
  | take =>
    obtain ⟨⟨_, hpc⟩, hs⟩ := Option.ite_none_right_eq_some.mp hs
    cases hs
    have hpoint := h.point
    unfold AtPoint at hpoint
    rw [hpc] at hpoint
    exact ⟨q, h.length, h.has, h.trigger, h.short, h.wf, h.acks, hpoint⟩
  | run =>
    obtain ⟨hrun, hs⟩ := Option.ite_none_right_eq_some.mp hs
    exact h.task hrun hs
  | give =>
    cases hs
    exact ⟨q, h.give⟩
  | timeout =>
    obtain ⟨_, hs⟩ := Option.ite_none_right_eq_some.mp hs
    cases hs
    exact ⟨q, h.event rfl id h.acks (fun _ he => absurd he Bool.noConfusion) Bool.noConfusion id⟩
  | suspend =>
    cases hs
    refine ⟨q, h.event rfl (fun hr => ?_) h.acks (fun _ _ hi => absurd hi Bool.noConfusion) id
      Bool.noConfusion⟩
    show (if s.notify.ucNotifyState = .waiting then _ else _) = _
    rw [if_neg (by rw [hr]; exact NotifyState.noConfusion), hr]
  | resume =>
    cases hs
    exact ⟨q, h.length, h.has, h.trigger, h.short, h.wf, h.acks, h.point⟩

theorem init (mem : Nat → UInt8) : Inv (RxRing.init mem) [] :=
  ⟨rfl, StreamBuffer.has_create mem _, Nat.le_refl 1, fun hw => absurd hw Bool.false_ne_true,
    fun hb => absurd hb Bool.false_ne_true, rfl, rfl, rfl⟩

end Inv
end RxRing

theorem rxRing_inv {mem : Nat → UInt8} {s : RxRing} {as : List RxRingAct}
    (h : rxRing.run (RxRing.init mem) as = some s) : ∃ q, s.Inv q :=
  (Machine.run_free h).inv (I := fun s => ∃ q, RxRing.Inv s q) ⟨[], .init mem⟩
    fun _ _ _ hx _ hs => hx.elim fun _ hq => hq.step hs

/-! ## the abstract port -/

/-- in `serial_recv` with its bytes, or not yet -/
def RingPc.recv : RingPc → RecvPc
  | .test bs => .test bs
  | .query bs => .query bs
  | .clear bs => .clear bs
  | _ => .outside

namespace RxRing
open Serial
variable {s t : RxRing} {q : List UInt8}

/-- the port, with the buffer as a list -/
def port (s : RxRing) : RxPort where
  serial := ⟨s.sb.contents, s.overrun, [], s.rxEnabled, false⟩
  pc := s.pc.recv
  log := s.log

theorem Inv.port_eq (h : Inv s q) :
    s.port = ⟨⟨q, s.overrun, [], s.rxEnabled, false⟩, s.pc.recv, s.log⟩ := by
  unfold port
  rw [h.has.contents]

theorem Inv.free (h : Inv s q) : s.sb.xStreamBufferSpacesAvailable = s.port.free := by
  unfold RxPort.free
  rw [h.spaces, h.port_eq]

theorem sendComplete_port (s : RxRing) : s.sendCompleteFromIsr.port = s.port := by
  unfold sendCompleteFromIsr
  split <;> rfl

theorem isr_port (h : Inv s q) (c : UInt8) : s.port.usart1Isr c = (s.usart1Isr c).port := by
  rw [h.port_eq]
  unfold RxPort.usart1Isr
  by_cases he : s.rxEnabled = true
  swap
  · unfold Serial.usart1IsrRx usart1Isr
    simp only [if_neg he]
    exact h.port_eq.symm
  unfold Serial.usart1IsrRx
  simp only [if_pos he]
  rcases h.isr_cases c he with ⟨ho, heq⟩ | ⟨h0, hlen, heq⟩ | ⟨h0, hlen, sb, _, hsent, heq⟩
  · rw [heq]
    simp only [if_pos ho, beq_self_eq_true]
    unfold port
    rw [h.has.contents]
  · have hsend : streamSend rxQueueDepth q [c] = (q, 0) := by
      unfold streamSend
      rw [hlen, Nat.sub_self, List.take_zero, List.append_nil, List.length_nil]
    rw [heq, hsend]
    simp only [if_neg (show ¬ 0 < s.overrun by omega), if_neg Nat.zero_ne_one, beq_self_eq_true,
      decide_eq_true hlen.ge]
    unfold port
    rw [h.has.contents]
  · have hsend : streamSend rxQueueDepth q [c] = (q ++ [c], 1) := by
      unfold streamSend
      rw [List.take_of_length_le (by rw [List.length_singleton]; omega), List.length_singleton]
    have hkept : (q ++ [c] == q) = false := by simp
    rw [heq, sendComplete_port, hsend]
    simp only [if_neg (show ¬ 0 < s.overrun by omega), if_true, hkept,
      decide_eq_false (Nat.not_le.mpr hlen)]
    unfold port
    rw [hsent.contents]

theorem match_quiet (ht : t.port = s.port) : ∃ bs, rxPort.run s.port bs = some t.port :=
  ⟨[], by rw [ht]; rfl⟩

theorem match_action {a : RxPortAct} (ha : s.port.step a = some t.port) :
    ∃ bs, rxPort.run s.port bs = some t.port :=
  ⟨[a], (Machine.run_cons_some _).mpr ⟨_, ha, rfl⟩⟩

/-- The bytes leave the buffer when the tail moves. -/
theorem release_port (h : Inv s q) {xCount : Nat} {got : List UInt8} (hpc : s.pc = .read xCount got)
    (hlt : ¬ got.length < xCount) :
    s.port.step (.call xCount) = some { s with
      sb := s.sb.setTail xCount, pc := .test got : RxRing }.port := by
  have hpoint := h.point
  unfold AtPoint at hpoint
  rw [hpc] at hpoint
  obtain ⟨_, hpos, _, hgot, htake⟩ := hpoint
  have hlen : got.length = xCount := by omega
  rw [hlen] at htake
  rw [h.port_eq, (h.release hpc).port_eq, hpc]
  refine (if_pos ⟨rfl, hpos⟩).trans ?_
  rw [htake]
  rfl

theorem ret_port (h : Inv s q) (bs : List UInt8) : (s.ret bs).port = s.port.ret bs := by
  unfold RxPort.ret
  rw [← h.free]
  rfl

/-- `serial_recv`, once it has its bytes -/
theorem recv_port (h : Inv s q) {bs : List UInt8} (hs : s.taskStep = some t)
    (hpc : s.pc = .test bs ∨ s.pc = .query bs ∨ s.pc = .clear bs) :
    s.port.serialRecvStep = some t.port := by
  have hport : s.port.pc = s.pc.recv := rfl
  have hret := ret_port h bs
  unfold taskStep at hs
  unfold RxPort.serialRecvStep
  rcases hpc with hpc | hpc | hpc <;> rw [hpc] at hs hport <;> rw [hport] <;> cases hs
  · by_cases htest : 0 < bs.length ∧ 0 < s.overrun
    · rw [if_pos htest]
      exact congrArg some (if_pos htest)
    · rw [if_neg htest, hret]
      exact congrArg some (if_neg htest)
  · rw [h.free]
    by_cases hroom : rxOverrunResume ≤ s.port.free
    · rw [if_pos hroom]
      exact congrArg some (if_pos hroom)
    · rw [if_neg hroom, hret]
      exact congrArg some (if_neg hroom)
  · exact congrArg some (ret_port (h.relog 0 s.log) bs).symm

/-- A second look that finds nothing is a receive of nothing. -/
theorem recheck_port (h : Inv s q) {n : Nat} (hpc : s.pc = .recheck n)
    (hempty : s.sb.prvBytesInBuffer = 0) :
    s.port.step (.call 1) = some { s with pc := .test [] : RxRing }.port := by
  rw [h.has.bytes] at hempty
  have hq : q = [] := List.eq_nil_of_length_eq_zero hempty
  have hport := h.port_eq
  rw [hq, hpc] at hport
  have hnext : ({ s with pc := .test [] : RxRing }).port =
      ⟨⟨[], s.overrun, [], s.rxEnabled, false⟩, .test [], s.log⟩ := by
    unfold port
    rw [h.has.contents, hq]
    rfl
  rw [hport, hnext]
  unfold RxPort.step
  exact if_pos ⟨rfl, Nat.le_refl 1⟩

theorem port_congr (hpc : t.pc.recv = s.pc.recv) (hsb : t.sb = s.sb) (ho : t.overrun = s.overrun)
    (he : t.rxEnabled = s.rxEnabled) (hlog : t.log = s.log) : t.port = s.port := by
  unfold port
  rw [hpc, hsb, ho, he, hlog]

/-- What a step of the task is to the port: nothing, the receive of its bytes, or a step of
`serial_recv`. -/
theorem task_port (h : Inv s q) (hs : s.taskStep = some t) :
    ∃ bs, rxPort.run s.port bs = some t.port := by
  have hrecv := fun bs : List UInt8 => @recv_port _ _ _ h bs hs
  unfold taskStep at hs
  cases hpc : s.pc <;> rw [hpc] at hs
  case outside => cases hs
  case test bs => exact match_action (a := .run) (hrecv bs (.inl hpc))
  case query bs => exact match_action (a := .run) (hrecv bs (.inr (.inl hpc)))
  case clear bs => exact match_action (a := .run) (hrecv bs (.inr (.inr hpc)))
  case read xCount got =>
    cases hs
    split
    · exact match_quiet (port_congr (by rw [hpc]; rfl) rfl rfl rfl rfl)
    · rename_i hlt
      exact match_action (release_port h hpc hlt)
  case recheck n =>
    cases hs
    split
    · rename_i hempty
      exact match_action (recheck_port h hpc hempty)
    · exact match_quiet (port_congr (by rw [hpc]; rfl) rfl rfl rfl rfl)
  case look n =>
    cases hs
    split <;> exact match_quiet (port_congr (by rw [hpc]; rfl) rfl rfl rfl rfl)
  all_goals
    cases hs
    exact match_quiet (port_congr (by rw [hpc]; rfl) rfl rfl rfl rfl)

theorem step_port (h : Inv s q) {a : RxRingAct} (hs : s.step a = some t) :
    ∃ bs, rxPort.run s.port bs = some t.port := by
  cases a with
  | uart c =>
    cases hs
    exact match_action (a := .uart c) (congrArg some (isr_port h c))
  | enable on =>
    cases hs
    exact match_action (a := .enable on) rfl
  | recv n =>
    obtain ⟨⟨_, hpc, _⟩, hs⟩ := Option.ite_none_right_eq_some.mp hs
    cases hs
    refine match_quiet ?_
    unfold setTriggerLevel
    split <;> exact port_congr (by rw [hpc]; rfl) rfl rfl rfl rfl
  | take =>
    obtain ⟨⟨_, hpc⟩, hs⟩ := Option.ite_none_right_eq_some.mp hs
    cases hs
    exact match_quiet (port_congr (by rw [hpc]; rfl) rfl rfl rfl rfl)
  | run =>
    obtain ⟨_, hs⟩ := Option.ite_none_right_eq_some.mp hs
    exact task_port h hs
  | timeout =>
    obtain ⟨_, hs⟩ := Option.ite_none_right_eq_some.mp hs
    cases hs
    exact match_quiet rfl
  | give | suspend | resume =>
    cases hs
    exact match_quiet rfl

end RxRing

/-- The ring buffer and the sleeping receive do what the list and the receive in one step do. -/
theorem rxRing_simulation :
    Machine.Simulation rxRing rxPort fun s u => (∃ q, RxRing.Inv s q) ∧ u = s.port := by
  rintro s a t u ⟨⟨q, hq⟩, rfl⟩ hs
  obtain ⟨bs, hbs⟩ := RxRing.step_port hq hs
  exact ⟨bs, t.port, hbs, hq.step hs, rfl⟩

/-- **The ring refines the list.**  Every run over the ring buffer is, step for step of the log, a run
of `rxPort`: so `serial_recv` returns what was received, in order, less whole runs of bytes that begin
with the buffer full. -/
theorem rxRing_refines (mem : Nat → UInt8) (as : List RxRingAct) (s : RxRing)
    (h : rxRing.run (RxRing.init mem) as = some s) :
    (∃ bs, rxPort.run RxPort.init bs = some s.port) ∧
      returned s.log ++ s.pc.recv.inHand ++ s.sb.contents = kept s.log ∧ WholeRuns s.log := by
  have hinit : (RxRing.init mem).port = RxPort.init := by
    rw [(RxRing.Inv.init mem).port_eq]
    rfl
  obtain ⟨bs, u, hu, _, rfl⟩ := rxRing_simulation.run ⟨⟨[], .init mem⟩, rfl⟩ h
  rw [hinit] at hu
  have hinv : s.port.Inv := (Machine.run_free hu).inv .init fun _ _ _ hi _ hs => hi.step hs
  exact ⟨⟨bs, hu⟩, hinv.conserved, hinv.runs⟩

/-- a receive that finds nothing; a byte arrives before the task sleeps -/
def oneByteAsleep : List RxRingAct := [.resume, .enable true, .recv 8, .run, .uart 97, .run]

/-- an ACK wakes the task; one more byte arrives while the first is read -/
def wokenByAck : List RxRingAct :=
  oneByteAsleep ++ [.give, .run, .run, .run, .uart 98, .run, .run, .run]

theorem rxRing_refines_woken :
    ∃ s, rxRing.run (RxRing.init fun _ => 0) wokenByAck = some s ∧ returned s.log = [97] ∧
      s.sb.contents = [98] ∧ (∃ bs, rxPort.run RxPort.init bs = some s.port) ∧
      kept s.log = [97, 98] ∧ WholeRuns s.log := by
  have hend : (rxRing.run (RxRing.init fun _ => 0) wokenByAck).map
      (fun s => (returned s.log, s.pc.recv, s.sb.contents)) = some ([97], .outside, [98]) := by
    decide
  obtain ⟨s, hs, hend⟩ := Option.map_eq_some_iff.mp hend
  rw [Prod.mk.injEq, Prod.mk.injEq] at hend
  obtain ⟨hrun, hkept, hruns⟩ := rxRing_refines (fun _ => 0) wokenByAck s hs
  rw [hend.1, hend.2.1, hend.2.2] at hkept
  exact ⟨s, hs, hend.1, hend.2.2, hrun, hkept.symm, hruns⟩

/-- **Nobody sleeps beside enough bytes.**  The console task sleeps in `serial_recv` only while fewer
bytes are in the buffer than it asked for, and then `usart1_isr` will notify it: whatever comes between
its look at the buffer and its sleep. -/
theorem sleeps_without_data (mem : Nat → UInt8) (as : List RxRingAct) (s : RxRing) (n : Nat)
    (h : rxRing.run (RxRing.init mem) as = some s) (hpc : s.pc = .waiting n)
    (hb : s.notify.blocked = true) :
    s.sb.contents.length < n ∧ s.xTaskWaitingToReceive = true := by
  obtain ⟨q, hq⟩ := rxRing_inv h
  have hpoint := hq.point
  unfold RxRing.AtPoint at hpoint
  rw [hpc] at hpoint
  have hw := hpoint.2 hb
  rw [hq.has.contents]
  refine ⟨?_, hw⟩
  by_cases hn : n ≤ Serial.rxQueueDepth
  · have hshort := hq.short hw
    rw [hpoint.1.2 hn] at hshort
    exact hshort
  · -- so many bytes are never there
    exact hq.le.trans_lt (Nat.not_le.mp hn)

theorem sleeps_without_data_one :
    ∃ s, rxRing.run (RxRing.init fun _ => 0) oneByteAsleep = some s ∧ s.sb.contents = [97] ∧
      s.sb.contents.length < 8 ∧ s.xTaskWaitingToReceive = true := by
  have hend : (rxRing.run (RxRing.init fun _ => 0) oneByteAsleep).map
      (fun s => (s.pc, s.notify.blocked, s.sb.contents)) = some (.waiting 8, true, [97]) := by
    decide
  obtain ⟨s, hs, hend⟩ := Option.map_eq_some_iff.mp hend
  rw [Prod.mk.injEq, Prod.mk.injEq] at hend
  exact ⟨s, hs, hend.2.2,
    sleeps_without_data (fun _ => 0) oneByteAsleep s 8 hs hend.1 hend.2.1⟩

/-- **An ACK survives the other wait.**  The stream buffer uses the notification on which
`ulTaskNotifyTake` waits for the ACK; but the notification value is the number of ACKs since the last
wait, whatever the buffer did in between.  A wait for the ACK sleeps only while there was none, and
ends without one only at the timeout, or if the task was suspended meanwhile. -/
theorem ack_survives (mem : Nat → UInt8) (as : List RxRingAct) (s : RxRing)
    (h : rxRing.run (RxRing.init mem) as = some s) :
    s.notify.ulNotifiedValue = UInt32.ofNat s.acks ∧
      (s.pc = .taking → s.notify.blocked = true → s.notify.ulNotifiedValue = 0) ∧
      (s.pc = .taking → s.notify.blocked = false → s.expired = false → s.interrupted = false →
        0 < s.acks) := by
  obtain ⟨q, hq⟩ := rxRing_inv h
  have hpoint := hq.point
  unfold RxRing.AtPoint at hpoint
  refine ⟨hq.acks, fun hpc => ?_, fun hpc => ?_⟩
  · rw [hpc] at hpoint
    exact hpoint.2.1
  · rw [hpc] at hpoint
    exact hpoint.2.2

/-- The ACK that comes during the receive is there for the wait. -/
theorem ack_survives_woken :
    ∃ s, rxRing.run (RxRing.init fun _ => 0) (wokenByAck ++ [.take, .run]) = some s ∧
      s.pc = .taking ∧ s.notify.blocked = false ∧ s.expired = false ∧ s.interrupted = false ∧
      s.notify.ulNotifiedValue = UInt32.ofNat s.acks ∧ 0 < s.acks := by
  have hend : (rxRing.run (RxRing.init fun _ => 0) (wokenByAck ++ [.take, .run])).map
      (fun s => (s.pc, s.notify.blocked, s.expired, s.interrupted)) =
        some (.taking, false, false, false) := by
    decide
  obtain ⟨s, hs, hend⟩ := Option.map_eq_some_iff.mp hend
  rw [Prod.mk.injEq, Prod.mk.injEq, Prod.mk.injEq] at hend
  obtain ⟨hpc, hawake, hexpired, hinterrupted⟩ := hend
  obtain ⟨hvalue, _, hack⟩ := ack_survives (fun _ => 0) (wokenByAck ++ [.take, .run]) s hs
  exact ⟨s, hs, hpc, hawake, hexpired, hinterrupted, hvalue, hack hpc hawake hexpired hinterrupted⟩

/-- A suspension ends the wait with no ACK and before the timeout. -/
example : (rxRing.run (RxRing.init fun _ => 0) [.resume, .take, .run, .suspend, .resume, .run]).map
    (fun s => (s.pc, s.acks, s.expired)) = some (.outside, 0, false) := by decide

end Bramble
