import Mathlib.Data.UInt

/-!
# Task notifications (`tasks.c`)

The two words of a task control block that the notifications use, and whether the task sleeps on
them.  `ulTaskNotifyTake` and `xTaskNotifyWait` have two critical sections each; between them the
task sleeps until a notification, the timeout or a suspension.
-/

namespace Bramble

/-- `ucNotifyState` -/
inductive NotifyState where
  | notWaiting | waiting | received
  deriving DecidableEq

structure TaskNotify where
  ulNotifiedValue : UInt32
  ucNotifyState : NotifyState
  /-- off the ready list until a notification or the timeout -/
  blocked : Bool
  deriving DecidableEq

namespace TaskNotify

/-- of a new task -/
def init : TaskNotify := ⟨0, .notWaiting, false⟩

/-- `xTaskNotify` with `eNoAction`: a task that waits is unblocked -/
def xTaskNotify (n : TaskNotify) : TaskNotify :=
  { n with
    ucNotifyState := .received
    blocked := n.blocked && decide (n.ucNotifyState ≠ .waiting) }

/-- `xTaskNotifyGive`, `vTaskNotifyGiveFromISR` -/
def xTaskNotifyGive (n : TaskNotify) : TaskNotify :=
  { n.xTaskNotify with ulNotifiedValue := n.ulNotifiedValue + 1 }

def xTaskNotifyStateClear (n : TaskNotify) : TaskNotify :=
  if n.ucNotifyState = .received then { n with ucNotifyState := .notWaiting } else n

/-- first critical section of `ulTaskNotifyTake` -/
def takeEnter (n : TaskNotify) : TaskNotify :=
  if n.ulNotifiedValue = 0 then { n with ucNotifyState := .waiting, blocked := true } else n

/-- second critical section of `ulTaskNotifyTake (pdTRUE, ..)` -/
def takeExit (n : TaskNotify) : TaskNotify :=
  { n with ulNotifiedValue := 0, ucNotifyState := .notWaiting }

/-- first critical section of `xTaskNotifyWait (0, 0, ..)` -/
def waitEnter (n : TaskNotify) : TaskNotify :=
  if n.ucNotifyState ≠ .received then { n with ucNotifyState := .waiting, blocked := true } else n

/-- second critical section of `xTaskNotifyWait (0, 0, ..)` -/
def waitExit (n : TaskNotify) : TaskNotify := { n with ucNotifyState := .notWaiting }

/-- the timeout -/
def expire (n : TaskNotify) : TaskNotify := { n with blocked := false }

/-- `vTaskSuspend`; after `vTaskResume` the task is ready -/
def suspend (n : TaskNotify) : TaskNotify :=
  { n with
    ucNotifyState := if n.ucNotifyState = .waiting then .notWaiting else n.ucNotifyState
    blocked := false }

/-- a task sleeps only while it waits -/
def WF (n : TaskNotify) : Prop := n.blocked = true → n.ucNotifyState = .waiting

section
variable {n : TaskNotify}

theorem WF.unblocked (h : n.WF) : n.xTaskNotify.blocked = false := by
  unfold xTaskNotify
  cases hb : n.blocked with
  | false => rfl
  | true => rw [h hb]; rfl

theorem WF.notify (h : n.WF) : n.xTaskNotify.WF := by
  intro hb
  rw [h.unblocked] at hb
  cases hb

theorem WF.takeEnter (h : n.WF) : n.takeEnter.WF := by
  unfold TaskNotify.takeEnter
  split
  · exact fun _ => rfl
  · exact h

theorem WF.waitEnter (h : n.WF) : n.waitEnter.WF := by
  unfold TaskNotify.waitEnter
  split
  · exact fun _ => rfl
  · exact h

/-! ### a task that goes to sleep -/

theorem value_stateClear : n.xTaskNotifyStateClear.ulNotifiedValue = n.ulNotifiedValue := by
  unfold xTaskNotifyStateClear
  split <;> rfl

theorem blocked_stateClear : n.xTaskNotifyStateClear.blocked = n.blocked := by
  unfold xTaskNotifyStateClear
  split <;> rfl

theorem value_waitEnter : n.waitEnter.ulNotifiedValue = n.ulNotifiedValue := by
  unfold TaskNotify.waitEnter
  split <;> rfl

theorem value_takeEnter : n.takeEnter.ulNotifiedValue = n.ulNotifiedValue := by
  unfold TaskNotify.takeEnter
  split <;> rfl

/-- A notification that is pending keeps the task awake. -/
theorem blocked_waitEnter (hb : n.blocked = false) (h : n.waitEnter.blocked = true) :
    n.ucNotifyState ≠ .received := by
  intro hreceived
  unfold TaskNotify.waitEnter at h
  rw [if_neg (not_not_intro hreceived)] at h
  exact absurd (hb.symm.trans h) Bool.false_ne_true

/-- So does a count of notifications. -/
theorem blocked_takeEnter (hb : n.blocked = false) :
    n.takeEnter.blocked = true ↔ n.ulNotifiedValue = 0 := by
  unfold TaskNotify.takeEnter
  split
  · rename_i hzero
    exact iff_of_true rfl hzero
  · rename_i hne
    refine iff_of_false (fun h => ?_) hne
    exact absurd (hb.symm.trans h) Bool.false_ne_true

end

end TaskNotify
end Bramble
