import Bramble.Rtos.List

/-!
# Delayed tasks (`tasks.c`)

A task that blocks with a timeout goes to the list of this turn of the tick counter, or of the next
one, by its wake time modulo `2^32`.  The tick wakes those at the head whose time has come; when the
counter wraps, the lists change places.  While the scheduler is suspended, ticks and wake-ups are
kept for `xTaskResumeAll`.

* `sched`            the machine: the tick, tasks that block, events, suspension;
* `Sched.Inv`        the invariant: which wake time is ahead by how much;
* `wakes_on_time`    a timeout wakes its task at its tick, over all wraps of the counter;
* `no_task_lost`     every task is on one list, and what an event wakes becomes ready.
-/

namespace Bramble

/-- a task on a delayed list -/
structure DelayedTask (τ : Type) where
  task : τ
  /-- wake time -/
  xItemValue : UInt32
  /-- history: the same, by the ticks that have been handled -/
  due : Nat
  deriving DecidableEq

structure Sched (τ : Type) where
  xTickCount : UInt32
  xNextTaskUnblockTime : UInt32
  pxDelayedTaskList : List (DelayedTask τ)
  pxOverflowDelayedTaskList : List (DelayedTask τ)
  /-- the ready lists of all priorities -/
  ready : List τ
  xSuspendedTaskList : List τ
  xPendingReadyList : List τ
  uxSchedulerSuspended : Nat
  uxPendedTicks : Nat
  /-- history: the ticks that have been handled, and the timeouts with the tick of each -/
  now : Nat
  timeouts : List (DelayedTask τ × Nat)

inductive SchedAct (τ : Type) where
  /-- the tick interrupt -/
  | tick
  /-- a running task blocks -/
  | block (t : τ) (xTicksToWait : UInt32) (xCanBlockIndefinitely : Bool)
  /-- a blocked task gets what it waits for -/
  | event (t : τ)
  | suspendAll
  | resumeAll
  | suspend (t : τ)
  | resume (t : τ)

def SchedAct.ticks {τ : Type} : SchedAct τ → Nat
  | .tick => 1
  | _ => 0

namespace Sched
variable {τ : Type}

section
variable [DecidableEq τ]

/-- `vListInsert` (`Cursor.insert`) -/
def vListInsert (e : DelayedTask τ) (es : List (DelayedTask τ)) : List (DelayedTask τ) :=
  es.orderedInsert (fun a b => a.xItemValue < b.xItemValue) e

/-- the value of the head -/
def headValue : List (DelayedTask τ) → UInt32
  | [] => portMaxDelay
  | e :: _ => e.xItemValue

def prvResetNextTaskUnblockTime (s : Sched τ) : Sched τ :=
  { s with xNextTaskUnblockTime := headValue s.pxDelayedTaskList }

/-- `taskSWITCH_DELAYED_LISTS` -/
def switchDelayedLists (s : Sched τ) : Sched τ :=
  { s with
    pxDelayedTaskList := s.pxOverflowDelayedTaskList
    pxOverflowDelayedTaskList := s.pxDelayedTaskList }.prvResetNextTaskUnblockTime

/-- the loop of `xTaskIncrementTick`: the tasks unblocked, and the rest -/
def unblockLoop (xConstTickCount : UInt32) :
    List (DelayedTask τ) → List (DelayedTask τ) × List (DelayedTask τ)
  | [] => ([], [])
  | e :: es =>
    if xConstTickCount < e.xItemValue then ([], e :: es)
    else (e :: (unblockLoop xConstTickCount es).1, (unblockLoop xConstTickCount es).2)

/-- the tasks whose time has come go to the ready lists -/
def unblock (s : Sched τ) : Sched τ :=
  if s.xNextTaskUnblockTime ≤ s.xTickCount then
    let r := unblockLoop s.xTickCount s.pxDelayedTaskList
    { s with
      pxDelayedTaskList := r.2
      xNextTaskUnblockTime := headValue r.2
      ready := s.ready ++ r.1.map DelayedTask.task
      timeouts := s.timeouts ++ r.1.map fun e => (e, s.now) }
  else s

/-- `xTaskIncrementTick` with the scheduler running -/
def handleTick (s : Sched τ) : Sched τ :=
  let s := { s with xTickCount := s.xTickCount + 1, now := s.now + 1 }
  if s.xTickCount = 0 then s.switchDelayedLists.unblock else s.unblock

def xTaskIncrementTick (s : Sched τ) : Sched τ :=
  if s.uxSchedulerSuspended = 0 then s.handleTick
  else { s with uxPendedTicks := s.uxPendedTicks + 1 }

/-- `uxListRemove` of the state list item of `t` -/
def leave (s : Sched τ) (t : τ) : Sched τ :=
  { s with
    pxDelayedTaskList := s.pxDelayedTaskList.filter fun e => e.task ≠ t
    pxOverflowDelayedTaskList := s.pxOverflowDelayedTaskList.filter fun e => e.task ≠ t
    ready := s.ready.filter fun t' => t' ≠ t
    xSuspendedTaskList := s.xSuspendedTaskList.filter fun t' => t' ≠ t }

/-- `prvAddTaskToReadyList` -/
def makeReady (s : Sched τ) (t : τ) : Sched τ := { s with ready := s.ready ++ [t] }

def prvAddCurrentTaskToDelayedList (s : Sched τ) (t : τ) (xTicksToWait : UInt32)
    (xCanBlockIndefinitely : Bool) : Sched τ :=
  let s := s.leave t
  if xTicksToWait = portMaxDelay ∧ xCanBlockIndefinitely = true then
    { s with xSuspendedTaskList := s.xSuspendedTaskList ++ [t] }
  else
    let xTimeToWake := s.xTickCount + xTicksToWait
    let e := ⟨t, xTimeToWake, s.now + xTicksToWait.toNat⟩
    if xTimeToWake < s.xTickCount then
      { s with pxOverflowDelayedTaskList := vListInsert e s.pxOverflowDelayedTaskList }
    else
      { s with
        pxDelayedTaskList := vListInsert e s.pxDelayedTaskList
        xNextTaskUnblockTime :=
          if xTimeToWake < s.xNextTaskUnblockTime then xTimeToWake else s.xNextTaskUnblockTime }

/-- `xTaskRemoveFromEventList`; `vTaskNotifyGiveFromISR` moves the task in the same way -/
def xTaskRemoveFromEventList (s : Sched τ) (t : τ) : Sched τ :=
  if s.uxSchedulerSuspended = 0 then (s.leave t).makeReady t
  else { s with xPendingReadyList := s.xPendingReadyList ++ [t] }

/-- the loop of `xTaskResumeAll` over `xPendingReadyList` -/
def readyPending (s : Sched τ) : List τ → Sched τ
  | [] => { s with xPendingReadyList := [] }
  | t :: ts => ((s.leave t).makeReady t).readyPending ts

/-- with the wake time reset if there were some -/
def readyAll (s : Sched τ) : Sched τ :=
  let r := s.readyPending s.xPendingReadyList
  if s.xPendingReadyList = [] then r else r.prvResetNextTaskUnblockTime

/-- its loop over the pended ticks -/
def pendedTicks (s : Sched τ) : Nat → Sched τ
  | 0 => { s with uxPendedTicks := 0 }
  | n + 1 => s.handleTick.pendedTicks n

def xTaskResumeAll (s : Sched τ) : Sched τ :=
  let s := { s with uxSchedulerSuspended := s.uxSchedulerSuspended - 1 }
  if s.uxSchedulerSuspended = 0 then
    s.readyAll.pendedTicks s.readyAll.uxPendedTicks
  else s

def vTaskSuspend (s : Sched τ) (t : τ) : Sched τ :=
  let s := s.leave t
  { s with
    xSuspendedTaskList := s.xSuspendedTaskList ++ [t]
    xPendingReadyList := s.xPendingReadyList.filter fun t' => t' ≠ t }.prvResetNextTaskUnblockTime

def blocked (s : Sched τ) : List τ :=
  s.pxDelayedTaskList.map DelayedTask.task ++ s.pxOverflowDelayedTaskList.map DelayedTask.task ++
    s.xSuspendedTaskList

def tasks (s : Sched τ) : List τ := s.ready ++ s.blocked

def step (s : Sched τ) : SchedAct τ → Option (Sched τ)
  | .tick => some s.xTaskIncrementTick
  | .block t xTicksToWait indefinitely =>
    if t ∈ s.ready ∧ 0 < xTicksToWait then
      some (s.prvAddCurrentTaskToDelayedList t xTicksToWait indefinitely)
    else none
  | .event t =>
    if t ∈ s.blocked ∧ t ∉ s.xPendingReadyList then some (s.xTaskRemoveFromEventList t) else none
  | .suspendAll => some { s with uxSchedulerSuspended := s.uxSchedulerSuspended + 1 }
  | .resumeAll => if 0 < s.uxSchedulerSuspended then some s.xTaskResumeAll else none
  | .suspend t => if t ∈ s.tasks then some (s.vTaskSuspend t) else none
  | .resume t =>
    if t ∈ s.xSuspendedTaskList ∧ t ∉ s.xPendingReadyList then some ((s.leave t).makeReady t)
    else none

/-- `vTaskStartScheduler`, with all tasks ready -/
def init (ts : List τ) : Sched τ where
  xTickCount := 0
  xNextTaskUnblockTime := portMaxDelay
  pxDelayedTaskList := []
  pxOverflowDelayedTaskList := []
  ready := ts
  xSuspendedTaskList := []
  xPendingReadyList := []
  uxSchedulerSuspended := 0
  uxPendedTicks := 0
  now := 0
  timeouts := []

end

/-! ### Wake times -/

/-- in this turn of the counter -/
def Near (s : Sched τ) (e : DelayedTask τ) : Prop :=
  s.xTickCount.toNat < e.xItemValue.toNat ∧ e.due + s.xTickCount.toNat = s.now + e.xItemValue.toNat

/-- in the next turn of the counter -/
def Far (s : Sched τ) (e : DelayedTask τ) : Prop :=
  e.xItemValue.toNat < s.xTickCount.toNat ∧
    e.due + s.xTickCount.toNat = s.now + e.xItemValue.toNat + 2 ^ 32

/-- in this turn of the counter, perhaps at this tick -/
def Reached (s : Sched τ) (e : DelayedTask τ) : Prop :=
  s.xTickCount.toNat ≤ e.xItemValue.toNat ∧ e.due + s.xTickCount.toNat = s.now + e.xItemValue.toNat

def Sorted (es : List (DelayedTask τ)) : Prop := es.Pairwise fun e e' => e.xItemValue ≤ e'.xItemValue

/-- the invariant of the lists; `P` holds of the tasks of this turn -/
structure Inv (P : DelayedTask τ → Prop) (s : Sched τ) : Prop where
  sorted : Sorted s.pxDelayedTaskList
  sorted_overflow : Sorted s.pxOverflowDelayedTaskList
  near : ∀ e ∈ s.pxDelayedTaskList, P e
  far : ∀ e ∈ s.pxOverflowDelayedTaskList, s.Far e
  next : ∀ e ∈ s.pxDelayedTaskList, s.xNextTaskUnblockTime ≤ e.xItemValue
  count : s.xTickCount.toNat = s.now % 2 ^ 32
  log : ∀ p ∈ s.timeouts, p.2 = p.1.due

section
variable {s s' : Sched τ} {e : DelayedTask τ} {es : List (DelayedTask τ)}

theorem headValue_le (h : Sorted es) (he : e ∈ es) : headValue es ≤ e.xItemValue := by
  cases es with
  | nil => cases he
  | cons e' es =>
    obtain rfl | he := List.mem_cons.mp he
    · exact UInt32.le_refl _
    · exact (List.pairwise_cons.mp h).1 e he

theorem unblockLoop_append (n : UInt32) (es : List (DelayedTask τ)) :
    (unblockLoop n es).1 ++ (unblockLoop n es).2 = es := by
  induction es with
  | nil => rfl
  | cons e es ih =>
    unfold unblockLoop
    split
    · rfl
    · exact congrArg (e :: ·) ih

/-- the loop takes all whose time has come -/
theorem unblockLoop_spec (n : UInt32) (h : Sorted es) :
    (∀ e ∈ (unblockLoop n es).1, e.xItemValue ≤ n) ∧
      ∀ e ∈ (unblockLoop n es).2, n < e.xItemValue := by
  induction es with
  | nil => exact ⟨nofun, nofun⟩
  | cons e es ih =>
    obtain ⟨he, hes⟩ := List.pairwise_cons.mp h
    obtain ⟨hdue, hrest⟩ := ih hes
    unfold unblockLoop
    by_cases hlt : n < e.xItemValue
    · rw [if_pos hlt]
      refine ⟨nofun, fun e' he' => ?_⟩
      obtain rfl | he' := List.mem_cons.mp he'
      · exact hlt
      · exact UInt32.lt_of_lt_of_le hlt (he e' he')
    · rw [if_neg hlt]
      exact ⟨List.forall_mem_cons.mpr ⟨UInt32.not_lt.mp hlt, hdue⟩, hrest⟩

/-- the timeouts of one tick: all tasks whose time has come, and no others -/
theorem Inv.unblock (h : Inv s.Reached s) : Inv s.unblock.Near s.unblock := by
  unfold Sched.unblock
  split
  · rename_i hdue
    have hsplit := (unblockLoop_append s.xTickCount s.pxDelayedTaskList).symm
    obtain ⟨hpast, hrest⟩ := unblockLoop_spec s.xTickCount h.sorted
    have hsorted : Sorted (unblockLoop s.xTickCount s.pxDelayedTaskList).2 := by
      have hall := h.sorted
      rw [hsplit] at hall
      exact (List.pairwise_append.mp hall).2.1
    refine ⟨hsorted, h.sorted_overflow, fun e he => ?_, h.far, fun e he => headValue_le hsorted he,
      h.count, fun p hp => ?_⟩
    · have hmem : e ∈ s.pxDelayedTaskList := by
        rw [hsplit]
        exact List.mem_append_right _ he
      exact ⟨UInt32.lt_iff_toNat_lt.mp (hrest e he), (h.near e hmem).2⟩
    · obtain hp | hp := List.mem_append.mp hp
      · exact h.log p hp
      · obtain ⟨e, he, rfl⟩ := List.mem_map.mp hp
        have hmem : e ∈ s.pxDelayedTaskList := by
          rw [hsplit]
          exact List.mem_append_left _ he
        obtain ⟨hle, heq⟩ := h.near e hmem
        have hge := UInt32.le_iff_toNat_le.mp (hpast e he)
        show s.now = e.due
        omega
  · rename_i hearly
    refine ⟨h.sorted, h.sorted_overflow, fun e he => ⟨?_, (h.near e he).2⟩, h.far, h.next, h.count,
      h.log⟩
    have hnext := UInt32.le_iff_toNat_le.mp (h.next e he)
    have hlt := UInt32.lt_iff_toNat_lt.mp (UInt32.not_le.mp hearly)
    omega

/-- the list is empty when the counter wraps -/
theorem Inv.empty_at_wrap (h : Inv s.Near s) (hmax : s.xTickCount = portMaxDelay) :
    s.pxDelayedTaskList = [] := by
  refine List.eq_nil_iff_forall_not_mem.mpr fun e he => ?_
  have hlt := (h.near e he).1
  have hbound := e.xItemValue.toNat_lt
  have hcount : s.xTickCount.toNat = 2 ^ 32 - 1 := congrArg UInt32.toNat hmax
  omega

theorem toNat_succ (n : UInt32) : (n + 1).toNat = (n.toNat + 1) % 2 ^ 32 := UInt32.toNat_add n 1

theorem Inv.handleTick (h : Inv s.Near s) : Inv s.handleTick.Near s.handleTick := by
  have hbound := s.xTickCount.toNat_lt
  have hsucc := toNat_succ s.xTickCount
  have hcount : (s.xTickCount + 1).toNat = (s.now + 1) % 2 ^ 32 := by
    have := h.count
    omega
  unfold Sched.handleTick
  simp only
  split
  · rename_i hwrap
    have hmax : s.xTickCount.toNat = 2 ^ 32 - 1 := by
      have hzero := congrArg UInt32.toNat hwrap
      rw [hsucc] at hzero
      have : (0 : UInt32).toNat = 0 := rfl
      omega
    have hempty := h.empty_at_wrap (UInt32.toNat_inj.mp hmax)
    refine Inv.unblock ⟨h.sorted_overflow, h.sorted, fun e he => ⟨?_, ?_⟩, fun e he => ?_,
      fun e he => headValue_le h.sorted_overflow he, hcount, h.log⟩
    · show (s.xTickCount + 1).toNat ≤ _
      rw [hwrap]
      exact Nat.zero_le _
    · have hfar := (h.far e he).2
      show e.due + (s.xTickCount + 1).toNat = s.now + 1 + e.xItemValue.toNat
      omega
    · have hin : e ∈ s.pxDelayedTaskList := he
      rw [hempty] at hin
      cases hin
  · rename_i hne
    have hnowrap : s.xTickCount.toNat + 1 < 2 ^ 32 := by
      by_contra hge
      refine hne (UInt32.toNat_inj.mp ?_)
      have : (0 : UInt32).toNat = 0 := rfl
      omega
    refine Inv.unblock ⟨h.sorted, h.sorted_overflow, fun e he => ?_, fun e he => ?_, h.next, hcount,
      h.log⟩
    · obtain ⟨hlt, hdue⟩ := h.near e he
      show (s.xTickCount + 1).toNat ≤ _ ∧ e.due + (s.xTickCount + 1).toNat = s.now + 1 + _
      omega
    · obtain ⟨hlt, hdue⟩ := h.far e he
      show _ < (s.xTickCount + 1).toNat ∧ e.due + (s.xTickCount + 1).toNat = s.now + 1 + _ + 2 ^ 32
      omega

theorem Inv.makeReady (h : Inv s.Near s) (t : τ) : Inv (s.makeReady t).Near (s.makeReady t) :=
  ⟨h.sorted, h.sorted_overflow, h.near, h.far, h.next, h.count, h.log⟩

theorem Inv.reset (h : Inv s.Near s) :
    Inv s.prvResetNextTaskUnblockTime.Near s.prvResetNextTaskUnblockTime :=
  ⟨h.sorted, h.sorted_overflow, h.near, h.far, fun _ he => headValue_le h.sorted he, h.count, h.log⟩

theorem sorted_vListInsert (e : DelayedTask τ) (h : Sorted es) : Sorted (vListInsert e es) :=
  sorted_orderedInsert e h

theorem mem_vListInsert {e' : DelayedTask τ} : e' ∈ vListInsert e es ↔ e' = e ∨ e' ∈ es :=
  List.mem_orderedInsert _

theorem Inv.pendedTicks (h : Inv s.Near s) (n : Nat) :
    Inv (s.pendedTicks n).Near (s.pendedTicks n) := by
  induction n generalizing s with
  | zero => exact ⟨h.sorted, h.sorted_overflow, h.near, h.far, h.next, h.count, h.log⟩
  | succ n ih => exact ih h.handleTick

variable [DecidableEq τ]

theorem Inv.leave (h : Inv s.Near s) (t : τ) : Inv (s.leave t).Near (s.leave t) where
  sorted := h.sorted.filter _
  sorted_overflow := h.sorted_overflow.filter _
  near e he := h.near e (List.mem_filter.mp he).1
  far e he := h.far e (List.mem_filter.mp he).1
  next e he := h.next e (List.mem_filter.mp he).1
  count := h.count
  log := h.log

/-- **A task that blocks** is ahead by its ticks, in this turn of the counter or the next. -/
theorem Inv.block (h : Inv s.Near s) (t : τ) {xTicksToWait : UInt32} (hpos : 0 < xTicksToWait)
    (indefinitely : Bool) :
    Inv (s.prvAddCurrentTaskToDelayedList t xTicksToWait indefinitely).Near
      (s.prvAddCurrentTaskToDelayedList t xTicksToWait indefinitely) := by
  have hleave := h.leave t
  have hsum : (s.xTickCount + xTicksToWait).toNat =
      (s.xTickCount.toNat + xTicksToWait.toNat) % 2 ^ 32 := UInt32.toNat_add _ _
  have hcount := s.xTickCount.toNat_lt
  have hwait := xTicksToWait.toNat_lt
  have hpos : 0 < xTicksToWait.toNat := UInt32.lt_iff_toNat_lt.mp hpos
  unfold prvAddCurrentTaskToDelayedList
  simp only
  split
  · exact ⟨hleave.sorted, hleave.sorted_overflow, hleave.near, hleave.far, hleave.next, h.count,
      h.log⟩
  · split
    · rename_i hlt
      have hlt := UInt32.lt_iff_toNat_lt.mp hlt
      refine ⟨hleave.sorted, sorted_vListInsert _ hleave.sorted_overflow, hleave.near,
        fun e he => ?_, hleave.next, h.count, h.log⟩
      obtain rfl | he := mem_vListInsert.mp he
      · change (s.xTickCount + xTicksToWait).toNat < s.xTickCount.toNat at hlt
        refine ⟨hlt, ?_⟩
        show s.now + xTicksToWait.toNat + s.xTickCount.toNat =
          s.now + (s.xTickCount + xTicksToWait).toNat + 2 ^ 32
        omega
      · exact hleave.far e he
    · rename_i hge
      have hge := UInt32.le_iff_toNat_le.mp (UInt32.not_lt.mp hge)
      refine ⟨sorted_vListInsert _ hleave.sorted, hleave.sorted_overflow, fun e he => ?_, hleave.far,
        fun e he => ?_, h.count, h.log⟩
      · obtain rfl | he := mem_vListInsert.mp he
        · change s.xTickCount.toNat ≤ (s.xTickCount + xTicksToWait).toNat at hge
          show s.xTickCount.toNat < (s.xTickCount + xTicksToWait).toNat ∧
            s.now + xTicksToWait.toNat + s.xTickCount.toNat =
              s.now + (s.xTickCount + xTicksToWait).toNat
          omega
        · exact hleave.near e he
      · show (if _ then _ else _) ≤ _
        obtain rfl | he := mem_vListInsert.mp he
        · split
          · exact UInt32.le_refl _
          · rename_i hnot
            exact UInt32.not_lt.mp hnot
        · split
          · rename_i hlt
            exact UInt32.le_trans (UInt32.le_of_lt hlt) (hleave.next e he)
          · exact hleave.next e he

theorem Inv.readyPending (h : Inv s.Near s) (ts : List τ) :
    Inv (s.readyPending ts).Near (s.readyPending ts) := by
  induction ts generalizing s with
  | nil => exact ⟨h.sorted, h.sorted_overflow, h.near, h.far, h.next, h.count, h.log⟩
  | cons t ts ih => exact ih ((h.leave t).makeReady t)

theorem Inv.readyAll (h : Inv s.Near s) : Inv s.readyAll.Near s.readyAll := by
  unfold Sched.readyAll
  simp only
  split
  · exact h.readyPending _
  · exact (h.readyPending _).reset

theorem Inv.resumeAll (h : Inv s.Near s) : Inv s.xTaskResumeAll.Near s.xTaskResumeAll := by
  have hless : Inv s.Near { s with uxSchedulerSuspended := s.uxSchedulerSuspended - 1 } :=
    ⟨h.sorted, h.sorted_overflow, h.near, h.far, h.next, h.count, h.log⟩
  unfold xTaskResumeAll
  simp only
  split
  · exact hless.readyAll.pendedTicks _
  · exact hless

theorem Inv.suspend (h : Inv s.Near s) (t : τ) : Inv (s.vTaskSuspend t).Near (s.vTaskSuspend t) :=
  Inv.reset ⟨(h.leave t).sorted, (h.leave t).sorted_overflow, (h.leave t).near, (h.leave t).far,
    (h.leave t).next, h.count, h.log⟩

/-- what a step can do -/
theorem step_cases {a : SchedAct τ} (h : s.step a = some s') :
    (a = .tick ∧ s' = s.xTaskIncrementTick) ∨
    (∃ t n indefinitely, a = .block t n indefinitely ∧ (t ∈ s.ready ∧ 0 < n) ∧
      s' = s.prvAddCurrentTaskToDelayedList t n indefinitely) ∨
    (∃ t, a = .event t ∧ (t ∈ s.blocked ∧ t ∉ s.xPendingReadyList) ∧
      s' = s.xTaskRemoveFromEventList t) ∨
    (a = .suspendAll ∧ s' = { s with uxSchedulerSuspended := s.uxSchedulerSuspended + 1 }) ∨
    (a = .resumeAll ∧ 0 < s.uxSchedulerSuspended ∧ s' = s.xTaskResumeAll) ∨
    (∃ t, a = .suspend t ∧ t ∈ s.tasks ∧ s' = s.vTaskSuspend t) ∨
    ∃ t, a = .resume t ∧ (t ∈ s.xSuspendedTaskList ∧ t ∉ s.xPendingReadyList) ∧
      s' = (s.leave t).makeReady t := by
  cases a with
  | tick => exact Or.inl ⟨rfl, (Option.some.inj h).symm⟩
  | block t n indefinitely =>
    obtain ⟨hguard, h⟩ := Option.ite_none_right_eq_some.mp h
    exact Or.inr (Or.inl ⟨t, n, indefinitely, rfl, hguard, (Option.some.inj h).symm⟩)
  | event t =>
    obtain ⟨hguard, h⟩ := Option.ite_none_right_eq_some.mp h
    exact Or.inr (Or.inr (Or.inl ⟨t, rfl, hguard, (Option.some.inj h).symm⟩))
  | suspendAll => exact Or.inr (Or.inr (Or.inr (Or.inl ⟨rfl, (Option.some.inj h).symm⟩)))
  | resumeAll =>
    obtain ⟨hguard, h⟩ := Option.ite_none_right_eq_some.mp h
    exact Or.inr (Or.inr (Or.inr (Or.inr (Or.inl ⟨rfl, hguard, (Option.some.inj h).symm⟩))))
  | suspend t =>
    obtain ⟨hguard, h⟩ := Option.ite_none_right_eq_some.mp h
    exact Or.inr (Or.inr (Or.inr (Or.inr (Or.inr (Or.inl
      ⟨t, rfl, hguard, (Option.some.inj h).symm⟩)))))
  | resume t =>
    obtain ⟨hguard, h⟩ := Option.ite_none_right_eq_some.mp h
    exact Or.inr (Or.inr (Or.inr (Or.inr (Or.inr (Or.inr
      ⟨t, rfl, hguard, (Option.some.inj h).symm⟩)))))

theorem step_inv (h : Inv s.Near s) {a : SchedAct τ} (hstep : s.step a = some s') :
    Inv s'.Near s' := by
  have hsame : ∀ n k pending, Inv s.Near { s with
      uxSchedulerSuspended := n, uxPendedTicks := k, xPendingReadyList := pending } :=
    fun _ _ _ => ⟨h.sorted, h.sorted_overflow, h.near, h.far, h.next, h.count, h.log⟩
  obtain ⟨-, rfl⟩ | ⟨t, n, indefinitely, -, ⟨-, hpos⟩, rfl⟩ | ⟨t, -, -, rfl⟩ | ⟨-, rfl⟩ |
    ⟨-, -, rfl⟩ | ⟨t, -, -, rfl⟩ | ⟨t, -, -, rfl⟩ := step_cases hstep
  · unfold xTaskIncrementTick
    split
    · exact h.handleTick
    · exact hsame ..
  · exact h.block t hpos indefinitely
  · unfold xTaskRemoveFromEventList
    split
    · exact (h.leave t).makeReady t
    · exact hsame ..
  · exact hsame ..
  · exact h.resumeAll
  · exact h.suspend t
  · exact (h.leave t).makeReady t

end

/-! ### Ticks -/

section
variable {s s' : Sched τ}

/-- ticks that have come -/
def arrived (s : Sched τ) : Nat := s.now + s.uxPendedTicks

theorem unblock_now (s : Sched τ) :
    s.unblock.now = s.now ∧ s.unblock.uxPendedTicks = s.uxPendedTicks ∧
      s.unblock.uxSchedulerSuspended = s.uxSchedulerSuspended := by
  unfold unblock
  split
  · exact ⟨rfl, rfl, rfl⟩
  · exact ⟨rfl, rfl, rfl⟩

theorem handleTick_now (s : Sched τ) :
    s.handleTick.now = s.now + 1 ∧ s.handleTick.uxPendedTicks = s.uxPendedTicks ∧
      s.handleTick.uxSchedulerSuspended = s.uxSchedulerSuspended := by
  unfold handleTick
  simp only
  split
  · exact unblock_now _
  · exact unblock_now _

theorem pendedTicks_now (s : Sched τ) (n : Nat) :
    (s.pendedTicks n).now = s.now + n ∧ (s.pendedTicks n).uxPendedTicks = 0 ∧
      (s.pendedTicks n).uxSchedulerSuspended = s.uxSchedulerSuspended := by
  induction n generalizing s with
  | zero => exact ⟨rfl, rfl, rfl⟩
  | succ n ih =>
    obtain ⟨hnow, -, hsusp⟩ := handleTick_now s
    obtain ⟨hnow', hpended', hsusp'⟩ := ih s.handleTick
    refine ⟨?_, hpended', hsusp'.trans hsusp⟩
    rw [pendedTicks, hnow', hnow, Nat.add_assoc, Nat.add_comm 1]

variable [DecidableEq τ]

theorem readyPending_now (s : Sched τ) (ts : List τ) :
    (s.readyPending ts).now = s.now ∧ (s.readyPending ts).uxPendedTicks = s.uxPendedTicks ∧
      (s.readyPending ts).uxSchedulerSuspended = s.uxSchedulerSuspended := by
  induction ts generalizing s with
  | nil => exact ⟨rfl, rfl, rfl⟩
  | cons t ts ih => exact ih ((s.leave t).makeReady t)

theorem readyAll_now (s : Sched τ) :
    s.readyAll.now = s.now ∧ s.readyAll.uxPendedTicks = s.uxPendedTicks ∧
      s.readyAll.uxSchedulerSuspended = s.uxSchedulerSuspended := by
  unfold readyAll
  simp only
  split
  · exact readyPending_now _ _
  · exact readyPending_now _ _

/-- a step keeps the ticks that have come, but for one that comes; none are left pended where the
scheduler runs -/
theorem step_ticks (hrunning : s.uxSchedulerSuspended = 0 → s.uxPendedTicks = 0) {a : SchedAct τ}
    (hstep : s.step a = some s') : s'.arrived = s.arrived + a.ticks ∧
      (s'.uxSchedulerSuspended = 0 → s'.uxPendedTicks = 0) := by
  obtain ⟨rfl, rfl⟩ | ⟨t, n, indefinitely, rfl, -, rfl⟩ | ⟨t, rfl, -, rfl⟩ | ⟨rfl, rfl⟩ |
    ⟨rfl, -, rfl⟩ | ⟨t, rfl, -, rfl⟩ | ⟨t, rfl, -, rfl⟩ := step_cases hstep
  · unfold xTaskIncrementTick
    split
    · rename_i hzero
      obtain ⟨hnow, hpended, -⟩ := handleTick_now s
      refine ⟨?_, fun _ => hpended.trans (hrunning hzero)⟩
      rw [arrived, hnow, hpended, Nat.add_right_comm]
      rfl
    · rename_i hne
      exact ⟨rfl, fun hzero => absurd hzero hne⟩
  · unfold prvAddCurrentTaskToDelayedList
    simp only
    split
    · exact ⟨rfl, hrunning⟩
    · split
      · exact ⟨rfl, hrunning⟩
      · exact ⟨rfl, hrunning⟩
  · unfold xTaskRemoveFromEventList
    split
    · exact ⟨rfl, hrunning⟩
    · exact ⟨rfl, hrunning⟩
  · exact ⟨rfl, fun hzero => absurd hzero (Nat.succ_ne_zero _)⟩
  · unfold xTaskResumeAll
    simp only
    split
    · obtain ⟨hnow, hpended, -⟩ :=
        readyAll_now { s with uxSchedulerSuspended := s.uxSchedulerSuspended - 1 }
      obtain ⟨hnow', hpended', -⟩ := pendedTicks_now
        (readyAll { s with uxSchedulerSuspended := s.uxSchedulerSuspended - 1 }) s.uxPendedTicks
      rw [hpended]
      refine ⟨?_, fun _ => hpended'⟩
      rw [arrived, hnow', hpended', hnow]
      rfl
    · rename_i hne
      exact ⟨rfl, fun hzero => absurd hzero hne⟩
  · exact ⟨rfl, hrunning⟩
  · exact ⟨rfl, hrunning⟩

end

/-! ### Tasks -/

section
variable {s s' : Sched τ}

/-- where the tasks `ts` are -/
structure Placed (ts : List τ) (s : Sched τ) : Prop where
  perm : s.tasks.Perm ts
  pending : ∀ t ∈ s.xPendingReadyList, t ∈ s.blocked
  running : s.uxSchedulerSuspended = 0 → s.xPendingReadyList = []

variable {ts : List τ} {t : τ}

theorem mem_tasks_of_blocked (h : t ∈ s.blocked) : t ∈ s.tasks := List.mem_append_right _ h

theorem perm_makeReady (s : Sched τ) (t : τ) : (s.makeReady t).tasks.Perm (t :: s.tasks) := by
  show (s.ready ++ [t] ++ s.blocked).Perm _
  rw [← List.append_cons]
  exact List.perm_middle

theorem tasks_unblock (s : Sched τ) : s.unblock.tasks = s.tasks := by
  unfold unblock
  split
  · show s.ready ++ (unblockLoop s.xTickCount s.pxDelayedTaskList).1.map DelayedTask.task ++
      ((unblockLoop s.xTickCount s.pxDelayedTaskList).2.map DelayedTask.task ++
        s.pxOverflowDelayedTaskList.map DelayedTask.task ++ s.xSuspendedTaskList) =
      s.ready ++ (s.pxDelayedTaskList.map DelayedTask.task ++
        s.pxOverflowDelayedTaskList.map DelayedTask.task ++ s.xSuspendedTaskList)
    rw [← congrArg (List.map DelayedTask.task) (unblockLoop_append s.xTickCount s.pxDelayedTaskList),
      List.map_append]
    simp only [List.append_assoc]
  · rfl

theorem perm_handleTick (s : Sched τ) : s.handleTick.tasks.Perm s.tasks := by
  unfold handleTick
  simp only
  split
  · rw [tasks_unblock]
    exact (List.perm_append_comm.append_right _).append_left _
  · rw [tasks_unblock]
    rfl

theorem perm_pendedTicks (s : Sched τ) (n : Nat) : (s.pendedTicks n).tasks.Perm s.tasks := by
  induction n generalizing s with
  | zero => exact List.Perm.refl _
  | succ n ih => exact (ih s.handleTick).trans (perm_handleTick s)

theorem perm_suspended (ds os us : List τ) (t : τ) :
    (ds ++ os ++ (us ++ [t])).Perm (t :: (ds ++ os ++ us)) := by
  rw [← List.append_assoc]
  exact List.perm_append_singleton t _

theorem perm_middle_list (ds us : List τ) {os os' : List τ} (h : os'.Perm (t :: os)) :
    (ds ++ os' ++ us).Perm (t :: (ds ++ os ++ us)) := by
  refine ((h.append_left ds).append_right us).trans ?_
  rw [List.append_assoc, List.append_assoc]
  exact List.perm_middle

theorem perm_vListInsert (e : DelayedTask τ) (es : List (DelayedTask τ)) :
    ((vListInsert e es).map DelayedTask.task).Perm (e.task :: es.map DelayedTask.task) :=
  (List.perm_orderedInsert _ e es).map DelayedTask.task

theorem handleTick_pending (s : Sched τ) : s.handleTick.xPendingReadyList = s.xPendingReadyList := by
  have hunblock : ∀ r : Sched τ, r.unblock.xPendingReadyList = r.xPendingReadyList := fun r => by
    unfold unblock
    split
    · rfl
    · rfl
  unfold handleTick
  simp only
  split
  · exact hunblock _
  · exact hunblock _

theorem pendedTicks_pending (s : Sched τ) (n : Nat) :
    (s.pendedTicks n).xPendingReadyList = s.xPendingReadyList := by
  induction n generalizing s with
  | zero => rfl
  | succ n ih => exact (ih s.handleTick).trans (handleTick_pending s)

theorem unblock_ready (h : t ∈ s.ready) : t ∈ s.unblock.ready := by
  unfold unblock
  split
  · exact List.mem_append_left _ h
  · exact h

theorem handleTick_ready (h : t ∈ s.ready) : t ∈ s.handleTick.ready := by
  unfold handleTick
  simp only
  split
  · exact unblock_ready h
  · exact unblock_ready h

theorem pendedTicks_ready (h : t ∈ s.ready) (n : Nat) : t ∈ (s.pendedTicks n).ready := by
  induction n generalizing s with
  | zero => exact h
  | succ n ih => exact ih (handleTick_ready h)

variable [DecidableEq τ]

theorem map_filter_task (t : τ) (es : List (DelayedTask τ)) :
    (es.filter fun e => e.task ≠ t).map DelayedTask.task =
      (es.map DelayedTask.task).filter fun t' => t' ≠ t := by
  rw [List.filter_map]
  rfl

theorem blocked_leave (s : Sched τ) (t : τ) :
    (s.leave t).blocked = s.blocked.filter fun t' => t' ≠ t := by
  unfold blocked
  rw [List.filter_append, List.filter_append, ← map_filter_task, ← map_filter_task]
  rfl

theorem tasks_leave (s : Sched τ) (t : τ) :
    (s.leave t).tasks = s.tasks.filter fun t' => t' ≠ t := by
  unfold tasks
  rw [List.filter_append, blocked_leave]
  rfl

/-- a task that leaves its list and enters another -/
theorem perm_move (hperm : s.tasks.Perm ts) (hnodup : ts.Nodup) (ht : t ∈ s.tasks) :
    (t :: (s.leave t).tasks).Perm ts := by
  refine List.Perm.trans ?_ hperm
  rw [tasks_leave]
  obtain ⟨us, vs, hsplit⟩ := List.append_of_mem ht
  have hnodup' := hperm.nodup_iff.mpr hnodup
  rw [hsplit] at hnodup' ⊢
  rw [ListMem.filter_ne hnodup']
  exact List.perm_middle.symm

theorem mem_blocked_leave {t' : τ} (h : t' ∈ s.blocked) (hne : t' ≠ t) :
    t' ∈ (s.leave t).blocked := by
  rw [blocked_leave]
  exact List.mem_filter.mpr ⟨h, decide_eq_true hne⟩

theorem perm_ready (hperm : s.tasks.Perm ts) (hnodup : ts.Nodup) (ht : t ∈ s.tasks) :
    ((s.leave t).makeReady t).tasks.Perm ts :=
  (perm_makeReady _ t).trans (perm_move hperm hnodup ht)

theorem perm_readyPending (hperm : s.tasks.Perm ts) (hnodup : ts.Nodup) {us : List τ}
    (hus : ∀ u ∈ us, u ∈ ts) : (s.readyPending us).tasks.Perm ts := by
  induction us generalizing s with
  | nil => exact hperm
  | cons u us ih =>
    obtain ⟨hu, hus⟩ := List.forall_mem_cons.mp hus
    exact ih (perm_ready hperm hnodup (hperm.mem_iff.mpr hu)) hus

theorem perm_block (s : Sched τ) (t : τ) (n : UInt32) (indefinitely : Bool) :
    (s.prvAddCurrentTaskToDelayedList t n indefinitely).blocked.Perm (t :: (s.leave t).blocked) := by
  unfold prvAddCurrentTaskToDelayedList
  simp only
  split
  · exact perm_suspended ..
  · split
    · exact perm_middle_list _ _ (perm_vListInsert _ _)
    · exact ((perm_vListInsert _ _).append_right _).append_right _

theorem ready_block (s : Sched τ) (t : τ) (n : UInt32) (indefinitely : Bool) :
    (s.prvAddCurrentTaskToDelayedList t n indefinitely).ready = (s.leave t).ready ∧
      (s.prvAddCurrentTaskToDelayedList t n indefinitely).xPendingReadyList = s.xPendingReadyList ∧
      (s.prvAddCurrentTaskToDelayedList t n indefinitely).uxSchedulerSuspended =
        s.uxSchedulerSuspended := by
  unfold prvAddCurrentTaskToDelayedList
  simp only
  split
  · exact ⟨rfl, rfl, rfl⟩
  · split
    · exact ⟨rfl, rfl, rfl⟩
    · exact ⟨rfl, rfl, rfl⟩

/-- a task that leaves the others for a list of blocked tasks -/
theorem Placed.toBlocked (h : Placed ts s) (hnodup : ts.Nodup) (ht : t ∈ s.tasks) {r : Sched τ}
    (hready : r.ready = (s.leave t).ready) (hblocked : r.blocked.Perm (t :: (s.leave t).blocked))
    (hpending : ∀ u ∈ r.xPendingReadyList, u ∈ s.xPendingReadyList)
    (hrunning : r.uxSchedulerSuspended = s.uxSchedulerSuspended) : Placed ts r where
  perm := by
    refine List.Perm.trans ?_ (perm_move h.perm hnodup ht)
    unfold tasks
    rw [hready]
    exact (hblocked.append_left _).trans List.perm_middle
  pending u hu := by
    rw [hblocked.mem_iff, List.mem_cons]
    by_cases hut : u = t
    · exact Or.inl hut
    · exact Or.inr (mem_blocked_leave (h.pending u (hpending u hu)) hut)
  running hzero := by
    have hnil := h.running (hrunning ▸ hzero)
    refine List.eq_nil_iff_forall_not_mem.mpr fun u hu => ?_
    have hin := hpending u hu
    rw [hnil] at hin
    cases hin

/-- a task that is not pending leaves the others for the ready lists -/
theorem Placed.toReady (h : Placed ts s) (hnodup : ts.Nodup) (ht : t ∈ s.tasks)
    (hpending : t ∉ s.xPendingReadyList) : Placed ts ((s.leave t).makeReady t) where
  perm := perm_ready h.perm hnodup ht
  pending u hu := mem_blocked_leave (h.pending u hu) fun heq => hpending (heq ▸ hu)
  running := h.running

theorem readyPending_pending (s : Sched τ) (us : List τ) :
    (s.readyPending us).xPendingReadyList = [] := by
  induction us generalizing s with
  | nil => rfl
  | cons u us ih => exact ih _

theorem readyAll_tasks (s : Sched τ) :
    s.readyAll.tasks = (s.readyPending s.xPendingReadyList).tasks ∧
      s.readyAll.xPendingReadyList = [] := by
  unfold readyAll
  simp only
  split
  · exact ⟨rfl, readyPending_pending ..⟩
  · exact ⟨rfl, readyPending_pending ..⟩

/-- the loop makes all tasks of its list ready -/
theorem readyPending_ready {us : List τ} (h : t ∈ s.ready ∨ t ∈ us) :
    t ∈ (s.readyPending us).ready := by
  induction us generalizing s with
  | nil => exact h.resolve_right List.not_mem_nil
  | cons u us ih =>
    refine ih ?_
    by_cases htu : t = u
    · exact Or.inl (List.mem_append_right _ (List.mem_singleton.mpr htu))
    · obtain h | h := h
      · exact Or.inl (List.mem_append_left _ (List.mem_filter.mpr ⟨h, decide_eq_true htu⟩))
      · exact Or.inr ((List.mem_cons.mp h).resolve_left htu)

theorem readyAll_ready (h : t ∈ s.xPendingReadyList) : t ∈ s.readyAll.ready := by
  unfold readyAll
  simp only
  split
  · exact readyPending_ready (Or.inr h)
  · exact readyPending_ready (Or.inr h)

theorem Placed.resumeAll (h : Placed ts s) (hnodup : ts.Nodup) : Placed ts s.xTaskResumeAll := by
  have hperm : (tasks { s with uxSchedulerSuspended := s.uxSchedulerSuspended - 1 }).Perm ts :=
    h.perm
  unfold xTaskResumeAll
  simp only
  split
  · obtain ⟨htasks, hnil⟩ :=
      readyAll_tasks { s with uxSchedulerSuspended := s.uxSchedulerSuspended - 1 }
    have hpending : ∀ n, (pendedTicks (readyAll { s with
        uxSchedulerSuspended := s.uxSchedulerSuspended - 1 }) n).xPendingReadyList = [] := fun n =>
      (pendedTicks_pending _ n).trans hnil
    refine ⟨(perm_pendedTicks _ _).trans ?_, fun u hu => ?_, fun _ => hpending _⟩
    · rw [htasks]
      exact perm_readyPending hperm hnodup fun u hu =>
        h.perm.mem_iff.mp (mem_tasks_of_blocked (h.pending u hu))
    · rw [hpending] at hu
      cases hu
  · rename_i hne
    exact ⟨hperm, h.pending, fun hzero => absurd hzero hne⟩

theorem Placed.step (h : Placed ts s) (hnodup : ts.Nodup) {a : SchedAct τ}
    (hstep : s.step a = some s') : Placed ts s' := by
  obtain ⟨-, rfl⟩ | ⟨t, n, indefinitely, -, ⟨ht, -⟩, rfl⟩ | ⟨t, -, ⟨ht, hpending⟩, rfl⟩ | ⟨-, rfl⟩ |
    ⟨-, -, rfl⟩ | ⟨t, -, ht, rfl⟩ | ⟨t, -, ⟨ht, hpending⟩, rfl⟩ := step_cases hstep
  · unfold xTaskIncrementTick
    split
    · rename_i hzero
      have hnil : s.handleTick.xPendingReadyList = [] :=
        (handleTick_pending s).trans (h.running hzero)
      refine ⟨(perm_handleTick s).trans h.perm, fun u hu => ?_, fun _ => hnil⟩
      rw [hnil] at hu
      cases hu
    · exact ⟨h.perm, h.pending, h.running⟩
  · obtain ⟨hready, hpending, hsusp⟩ := ready_block s t n indefinitely
    exact h.toBlocked hnodup (List.mem_append_left _ ht) hready (perm_block ..)
      (fun u hu => hpending ▸ hu) hsusp
  · unfold xTaskRemoveFromEventList
    split
    · exact h.toReady hnodup (mem_tasks_of_blocked ht) hpending
    · rename_i hne
      refine ⟨h.perm, fun u hu => ?_, fun hzero => absurd hzero hne⟩
      obtain hu | hu := List.mem_append.mp hu
      · exact h.pending u hu
      · exact List.mem_singleton.mp hu ▸ ht
  · exact ⟨h.perm, h.pending, fun hzero => absurd hzero (Nat.succ_ne_zero _)⟩
  · exact h.resumeAll hnodup
  · exact h.toBlocked hnodup ht rfl (perm_suspended ..) (fun u hu => (List.mem_filter.mp hu).1) rfl
  · exact h.toReady hnodup (mem_tasks_of_blocked (List.mem_append_right _ ht)) hpending

/-- an event makes its task ready, at once or when the scheduler goes on -/
theorem step_event (h : s.step (.event t) = some s') :
    if s.uxSchedulerSuspended = 0 then t ∈ s'.ready else t ∈ s'.xPendingReadyList := by
  obtain ⟨_, h⟩ := Option.ite_none_right_eq_some.mp h
  cases h
  unfold xTaskRemoveFromEventList
  by_cases hzero : s.uxSchedulerSuspended = 0
  · rw [if_pos hzero, if_pos hzero]
    exact List.mem_append_right _ (List.mem_singleton_self t)
  · rw [if_neg hzero, if_neg hzero]
    exact List.mem_append_right _ (List.mem_singleton_self t)

theorem resumeAll_pending (h : t ∈ s.xPendingReadyList) :
    t ∈ s.xTaskResumeAll.xPendingReadyList ∨
      s.xTaskResumeAll.uxSchedulerSuspended = 0 ∧ t ∈ s.xTaskResumeAll.ready := by
  have h' : t ∈ xPendingReadyList { s with uxSchedulerSuspended := s.uxSchedulerSuspended - 1 } := h
  unfold xTaskResumeAll
  simp only
  split
  · rename_i hzero
    refine Or.inr ⟨?_, pendedTicks_ready (readyAll_ready h') _⟩
    rw [(pendedTicks_now _ _).2.2, (readyAll_now _).2.2]
    exact hzero
  · exact Or.inl h

/-- a task leaves `xPendingReadyList` when the scheduler goes on, or when it is suspended -/
theorem step_pending (h : t ∈ s.xPendingReadyList) {a : SchedAct τ} (hstep : s.step a = some s')
    (ha : a ≠ .suspend t) : t ∈ s'.xPendingReadyList ∨
      a = .resumeAll ∧ s'.uxSchedulerSuspended = 0 ∧ t ∈ s'.ready := by
  obtain ⟨-, rfl⟩ | ⟨u, n, indefinitely, -, -, rfl⟩ | ⟨u, -, -, rfl⟩ | ⟨-, rfl⟩ | ⟨rfl, -, rfl⟩ |
    ⟨u, rfl, -, rfl⟩ | ⟨u, -, -, rfl⟩ := step_cases hstep
  · refine Or.inl ?_
    unfold xTaskIncrementTick
    split
    · rw [handleTick_pending]
      exact h
    · exact h
  · rw [(ready_block s u n indefinitely).2.1]
    exact Or.inl h
  · refine Or.inl ?_
    unfold xTaskRemoveFromEventList
    split
    · exact h
    · exact List.mem_append_left _ h
  · exact Or.inl h
  · exact (resumeAll_pending h).imp id fun hready => ⟨rfl, hready⟩
  · refine Or.inl (List.mem_filter.mpr ⟨h, decide_eq_true ?_⟩)
    rintro rfl
    exact ha rfl
  · exact Or.inl h

end

end Sched

/-! ### Runs -/

section
open Sched
variable {τ : Type}

theorem inv_init (ts : List τ) : Inv (Sched.init ts).Near (Sched.init ts) :=
  ⟨List.Pairwise.nil, List.Pairwise.nil, nofun, nofun, nofun, rfl, nofun⟩

theorem placed_init (ts : List τ) : Placed ts (Sched.init ts) :=
  ⟨List.Perm.of_eq (List.append_nil ts), nofun, fun _ => rfl⟩

def sched (τ : Type) [DecidableEq τ] : Machine (Sched τ) (SchedAct τ) := ⟨Sched.step⟩

variable [DecidableEq τ] {ts : List τ} {as : List (SchedAct τ)} {s s' : Sched τ}

theorem run_ticks (hrunning : s.uxSchedulerSuspended = 0 → s.uxPendedTicks = 0)
    (h : (sched τ).run s as = some s') : s'.arrived = s.arrived + (as.map SchedAct.ticks).sum ∧
      (s'.uxSchedulerSuspended = 0 → s'.uxPendedTicks = 0) := by
  induction as generalizing s with
  | nil =>
    cases h
    exact ⟨rfl, hrunning⟩
  | cons a as ih =>
    obtain ⟨r, hr, h⟩ := (Machine.run_cons_some _).mp h
    obtain ⟨harrived, hrunning'⟩ := step_ticks hrunning hr
    obtain ⟨harrived', hrest⟩ := ih hrunning' h
    refine ⟨?_, hrest⟩
    rw [harrived', harrived, List.map_cons, List.sum_cons, Nat.add_assoc]

/-- a task that is pending stays so until the scheduler goes on and makes it ready -/
theorem run_pending {t : τ} (h : t ∈ s.xPendingReadyList) (hrun : (sched τ).run s as = some s')
    (has : .suspend t ∉ as) : t ∈ s'.xPendingReadyList ∨
      ∃ before after r, as = before ++ .resumeAll :: after ∧
        (sched τ).run s (before ++ [.resumeAll]) = some r ∧ r.uxSchedulerSuspended = 0 ∧
        t ∈ r.ready := by
  induction as generalizing s with
  | nil =>
    cases hrun
    exact Or.inl h
  | cons a as ih =>
    obtain ⟨ha, has⟩ := List.ne_and_not_mem_of_not_mem_cons has
    obtain ⟨r, hr, hrun⟩ := (Machine.run_cons_some _).mp hrun
    obtain h | ⟨rfl, hzero, hready⟩ := step_pending h hr (Ne.symm ha)
    · obtain h | ⟨before, after, r', rfl, hrun', hrest⟩ := ih h hrun has
      · exact Or.inl h
      · refine Or.inr ⟨a :: before, after, r', rfl, ?_, hrest⟩
        exact (Machine.run_cons_some _).mpr ⟨r, hr, hrun'⟩
    · exact Or.inr ⟨[], as, r, rfl, (Machine.run_cons_some _).mpr ⟨r, hr, rfl⟩, hzero, hready⟩

/-- **On time.**  Ticks that come while the scheduler is suspended are not lost; `xTaskResumeAll`
handles them.  Over any number of turns of the tick counter, a task that blocks for `n` ticks is
woken at the `n`-th tick handled from there on, unless an event comes first: none is late and none is
woken before.  When the counter wraps, the list of the turn is empty. -/
theorem wakes_on_time (h : (sched τ).run (Sched.init ts) as = some s) :
    s.now + s.uxPendedTicks = (as.map SchedAct.ticks).sum ∧
      (s.uxSchedulerSuspended = 0 → s.uxPendedTicks = 0) ∧
      s.xTickCount.toNat = s.now % 2 ^ 32 ∧
      (∀ e ∈ s.pxDelayedTaskList ++ s.pxOverflowDelayedTaskList, s.now < e.due) ∧
      (∀ p ∈ s.timeouts, p.2 = p.1.due) ∧
      (s.xTickCount = portMaxDelay → s.pxDelayedTaskList = []) := by
  have hinv : Inv s.Near s := (Machine.run_free h).inv (I := fun s => Inv s.Near s) (inv_init ts)
    fun _ _ _ hx _ hstep => step_inv hx hstep
  obtain ⟨harrived, hrunning⟩ := run_ticks (fun _ => rfl) h
  refine ⟨harrived.trans (Nat.zero_add _), hrunning, hinv.count, fun e he => ?_, hinv.log,
    hinv.empty_at_wrap⟩
  obtain he | he := List.mem_append.mp he
  · obtain ⟨hlt, hdue⟩ := hinv.near e he
    omega
  · obtain ⟨hlt, hdue⟩ := hinv.far e he
    have hbound := s.xTickCount.toNat_lt
    omega

/-- **No task is lost.**  Every task is on one list, ready or blocked.  An event makes its task
ready, or puts it on `xPendingReadyList` while the scheduler is suspended; there it stays, blocked,
until the `xTaskResumeAll` that lets the scheduler go on makes it ready, or it is suspended. -/
theorem no_task_lost (hnodup : ts.Nodup) (h : (sched τ).run (Sched.init ts) as = some s) :
    s.tasks.Perm ts ∧ (∀ t ∈ s.xPendingReadyList, t ∈ s.blocked) ∧
      (s.uxSchedulerSuspended = 0 → s.xPendingReadyList = []) ∧
      (∀ t s', s.step (.event t) = some s' →
        if s.uxSchedulerSuspended = 0 then t ∈ s'.ready else t ∈ s'.xPendingReadyList) ∧
      ∀ t ∈ s.xPendingReadyList, ∀ as' s', (sched τ).run s as' = some s' → .suspend t ∉ as' →
        t ∈ s'.xPendingReadyList ∨ ∃ before after r, as' = before ++ .resumeAll :: after ∧
          (sched τ).run s (before ++ [.resumeAll]) = some r ∧ r.uxSchedulerSuspended = 0 ∧
          t ∈ r.ready := by
  have hplaced : Placed ts s := (Machine.run_free h).inv (placed_init ts)
    fun _ _ _ hx _ hstep => hx.step hnodup hstep
  exact ⟨hplaced.perm, hplaced.pending, hplaced.running, fun _ _ => step_event,
    fun _ ht _ _ => run_pending ht⟩

/-- two timeouts, and an event for a third task while the scheduler is suspended -/
def untilEvent : List (SchedAct Nat) :=
  [.block 0 2 false, .tick, .block 1 portMaxDelay false, .block 2 9 true, .suspendAll, .event 2]

/-- a tick comes before the scheduler goes on -/
def afterEvent : List (SchedAct Nat) := [.tick, .resumeAll, .tick]

theorem wakes_on_time_three :
    ∃ s, (sched Nat).run (Sched.init [0, 1, 2]) (untilEvent ++ afterEvent) = some s ∧
      s.now + s.uxPendedTicks = 3 ∧ (∀ p ∈ s.timeouts, p.2 = p.1.due) := by
  obtain ⟨s, hs⟩ := Option.isSome_iff_exists.mp
    (show ((sched Nat).run (Sched.init [0, 1, 2]) (untilEvent ++ afterEvent)).isSome by decide +kernel)
  obtain ⟨hnow, -, -, -, hlog, -⟩ := wakes_on_time hs
  exact ⟨s, hs, hnow, hlog⟩

theorem no_task_lost_three : ∃ s s', (sched Nat).run (Sched.init [0, 1, 2]) untilEvent = some s ∧
    (sched Nat).run s afterEvent = some s' ∧ s.tasks.Perm [0, 1, 2] ∧ s.xPendingReadyList = [2] ∧
    (2 ∈ s'.xPendingReadyList ∨ ∃ before after r, afterEvent = before ++ .resumeAll :: after ∧
      (sched Nat).run s (before ++ [.resumeAll]) = some r ∧ r.uxSchedulerSuspended = 0 ∧
      2 ∈ r.ready) := by
  have hrun : ((sched Nat).run (Sched.init [0, 1, 2]) untilEvent).map (fun s =>
      (s.xPendingReadyList, ((sched Nat).run s afterEvent).isSome)) = some ([2], true) := by
    decide +kernel
  obtain ⟨s, hs, hend⟩ := Option.map_eq_some_iff.mp hrun
  obtain ⟨hpending, hsome⟩ := Prod.mk.inj hend
  obtain ⟨s', hs'⟩ := Option.isSome_iff_exists.mp hsome
  obtain ⟨hperm, -, -, -, hstays⟩ := no_task_lost (by decide) hs
  exact ⟨s, s', hs, hs', hperm, hpending,
    hstays 2 (hpending ▸ List.mem_singleton_self 2) afterEvent s' hs' (by simp [afterEvent])⟩

end

end Bramble
