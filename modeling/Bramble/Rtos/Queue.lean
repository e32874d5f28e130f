import Bramble.Lib.Fifo

/-!
# Queues (`queue.c`)

The storage of a queue with its write and read positions, and the lock that keeps interrupts off its
list of waiting tasks.  At most one task waits to receive.

* `Queue.Has`           the items in the storage; `Has.copyTo`, `Has.copyFrom`;
* `sendFromIsr_cases`   what an interrupt does with an item;
* `prvUnlockQueue_eq`   what unlocking does about the items that came while the queue was locked.
-/

namespace Bramble
open Fifo

structure Queue (α : Type) where
  /-- the storage from `pcHead` on, by item -/
  storage : Nat → α
  uxLength : Nat
  pcWriteTo : Nat
  pcReadFrom : Nat
  uxMessagesWaiting : Nat
  /-- `queueUNLOCKED` is -1 -/
  cTxLock : Int
  /-- the task is on `xTasksWaitingToReceive` -/
  waiting : Bool

namespace Queue
variable {α : Type}

/-- `xQueueGenericReset` of a new queue -/
def xQueueCreate (mem : Nat → α) (uxQueueLength : Nat) : Queue α where
  storage := mem
  uxLength := uxQueueLength
  pcWriteTo := 0
  pcReadFrom := uxQueueLength - 1
  uxMessagesWaiting := 0
  cTxLock := -1
  waiting := false

/-- `prvCopyDataToQueue`, `queueSEND_TO_BACK` -/
def prvCopyDataToQueue (q : Queue α) (item : α) : Queue α :=
  { q with
    storage := Function.update q.storage q.pcWriteTo item
    pcWriteTo := if q.uxLength ≤ q.pcWriteTo + 1 then 0 else q.pcWriteTo + 1
    uxMessagesWaiting := q.uxMessagesWaiting + 1 }

/-- `prvCopyDataFromQueue`, with the count of its callers -/
def prvCopyDataFromQueue (q : Queue α) : Queue α × α :=
  let pcReadFrom := if q.uxLength ≤ q.pcReadFrom + 1 then 0 else q.pcReadFrom + 1
  ({ q with pcReadFrom := pcReadFrom, uxMessagesWaiting := q.uxMessagesWaiting - 1 },
    q.storage pcReadFrom)

/-- `xQueueGenericSendFromISR`: whether there was room -/
def xQueueSendToBackFromISR (q : Queue α) (item : α) : Queue α × Bool :=
  if q.uxMessagesWaiting < q.uxLength then
    let q' := q.prvCopyDataToQueue item
    if q.cTxLock = -1 then ({ q' with waiting := false }, true)
    else ({ q' with cTxLock := q.cTxLock + 1 }, true)
  else (q, false)

/-- the critical section of `xQueueReceive` -/
def tryReceive (q : Queue α) : Option (Queue α × α) :=
  if 0 < q.uxMessagesWaiting then some q.prvCopyDataFromQueue else none

/-- `prvLockQueue` -/
def prvLockQueue (q : Queue α) : Queue α := if q.cTxLock = -1 then { q with cTxLock := 0 } else q

/-- the loop of `prvUnlockQueue`: an item that came wakes the task, if it waits -/
def unlockLoop : Nat → Bool → Bool
  | 0, waiting => waiting
  | n + 1, true => unlockLoop n false
  | _ + 1, false => false

/-- `prvUnlockQueue` -/
def prvUnlockQueue (q : Queue α) : Queue α :=
  { q with waiting := unlockLoop q.cTxLock.toNat q.waiting, cTxLock := -1 }

/-- `vTaskPlaceOnEventList` -/
def placeOnEventList (q : Queue α) : Queue α := { q with waiting := true }

/-! ## the items -/

/-- the items `xs` are in the queue -/
structure Has (q : Queue α) (xs : List α) : Prop where
  read : q.pcReadFrom < q.uxLength
  write : q.pcWriteTo = (q.pcReadFrom + 1 + xs.length) % q.uxLength
  room : xs.length ≤ q.uxLength
  count : q.uxMessagesWaiting = xs.length
  stored : Arc q.uxLength q.storage (q.pcReadFrom + 1) xs

/-- what is in the queue -/
def contents (q : Queue α) : List α :=
  values q.uxLength q.storage (q.pcReadFrom + 1) q.uxMessagesWaiting

section
variable {q : Queue α} {xs : List α}

theorem Has.contents (h : Has q xs) : q.contents = xs := by
  unfold Queue.contents
  rw [h.count]
  exact h.stored.eq_values

theorem has_create (mem : Nat → α) {n : Nat} (hn : 0 < n) : Has (xQueueCreate mem n) [] := by
  refine ⟨Nat.sub_lt hn Nat.one_pos, ?_, Nat.zero_le n, rfl, Arc.nil _ _⟩
  show 0 = (n - 1 + 1 + 0) % n
  rw [Nat.add_zero, Nat.sub_add_cancel hn, Nat.mod_self]

theorem next_slot {i n : Nat} (h : i < n) : (if n ≤ i + 1 then 0 else i + 1) = (i + 1) % n := by
  split
  · rw [show i + 1 = n by omega, Nat.mod_self]
  · rw [Nat.mod_eq_of_lt (by omega)]

theorem Has.copyTo (h : Has q xs) (hroom : xs.length < q.uxLength) (item : α) :
    Has (q.prvCopyDataToQueue item) (xs ++ [item]) := by
  have hpos : 0 < q.uxLength := Nat.zero_lt_of_lt h.read
  have hwrite : q.pcWriteTo < q.uxLength := by
    rw [h.write]
    exact Nat.mod_lt _ hpos
  refine ⟨h.read, ?_, ?_, ?_, ?_⟩
  · show (if q.uxLength ≤ q.pcWriteTo + 1 then 0 else q.pcWriteTo + 1) =
      (q.pcReadFrom + 1 + (xs ++ [item]).length) % q.uxLength
    rw [next_slot hwrite, h.write, Nat.mod_add_mod, List.length_append, List.length_singleton,
      ← Nat.add_assoc]
  · rw [List.length_append, List.length_singleton]
    exact hroom
  · show q.uxMessagesWaiting + 1 = _
    rw [h.count, List.length_append, List.length_singleton]
  · show Arc q.uxLength (Function.update q.storage q.pcWriteTo item) _ _
    rw [h.write]
    exact h.stored.concat hroom item

theorem Has.copyFrom {x : α} (h : Has q (x :: xs)) :
    Has q.prvCopyDataFromQueue.1 xs ∧ q.prvCopyDataFromQueue.2 = x := by
  have hnext := next_slot h.read
  have hslot : q.storage ((q.pcReadFrom + 1) % q.uxLength) = x := h.stored 0 x rfl
  have hread : q.prvCopyDataFromQueue.1.pcReadFrom = (q.pcReadFrom + 1) % q.uxLength := hnext
  refine ⟨⟨?_, ?_, ?_, ?_, ?_⟩, ?_⟩
  · rw [hread]
    exact Nat.mod_lt _ (Nat.zero_lt_of_lt h.read)
  · rw [hread]
    show q.pcWriteTo = ((q.pcReadFrom + 1) % q.uxLength + 1 + xs.length) % q.uxLength
    rw [h.write, List.length_cons, Nat.add_assoc ((q.pcReadFrom + 1) % q.uxLength), Nat.mod_add_mod,
      Nat.add_comm 1 xs.length]
  · have hroom := h.room
    rw [List.length_cons] at hroom
    exact Nat.le_of_succ_le hroom
  · show q.uxMessagesWaiting - 1 = _
    rw [h.count, List.length_cons, Nat.add_sub_cancel]
  · rw [hread]
    have hrest := h.stored.drop (k := 1) (by rw [List.length_cons]; omega)
    rw [List.drop_one, List.tail_cons] at hrest
    exact Arc.mod_add.mpr hrest
  · show q.storage _ = x
    rw [hnext, hslot]

/-- The lock and the waiting task do not matter to the items. -/
theorem Has.congr (h : Has q xs) (cTxLock : Int) (waiting : Bool) :
    Has { q with cTxLock := cTxLock, waiting := waiting } xs :=
  ⟨h.read, h.write, h.room, h.count, h.stored⟩

/-- An interrupt finds the queue full, or adds its item and wakes the task, or leaves that to the task
that has locked the queue. -/
theorem sendFromIsr_cases (h : Has q xs) (item : α) :
    (xs.length = q.uxLength ∧ q.xQueueSendToBackFromISR item = (q, false)) ∨
    (xs.length < q.uxLength ∧ ∃ q', q'.Has (xs ++ [item]) ∧ q'.uxLength = q.uxLength ∧
      q.xQueueSendToBackFromISR item = (q', true) ∧
      ((q.cTxLock = -1 ∧ q'.cTxLock = -1 ∧ q'.waiting = false) ∨
        (q.cTxLock ≠ -1 ∧ q'.cTxLock = q.cTxLock + 1 ∧ q'.waiting = q.waiting))) := by
  unfold xQueueSendToBackFromISR
  rw [h.count]
  rcases Nat.eq_or_lt_of_le h.room with hfull | hroom
  · rw [if_neg (by omega)]
    exact .inl ⟨hfull, rfl⟩
  · rw [if_pos hroom]
    have hcopy := h.copyTo hroom item
    refine .inr ⟨hroom, ?_⟩
    by_cases hlock : q.cTxLock = -1
    · simp only [if_pos hlock]
      exact ⟨_, hcopy.congr (q.prvCopyDataToQueue item).cTxLock false, rfl, rfl,
        .inl ⟨hlock, hlock, rfl⟩⟩
    · simp only [if_neg hlock]
      exact ⟨_, hcopy.congr (q.cTxLock + 1) (q.prvCopyDataToQueue item).waiting, rfl, rfl,
        .inr ⟨hlock, rfl, rfl⟩⟩

theorem unlockLoop_eq (n : Nat) (waiting : Bool) :
    unlockLoop n waiting = (waiting && decide (n = 0)) := by
  induction n generalizing waiting with
  | zero => exact (Bool.and_true waiting).symm
  | succ n ih =>
    cases waiting with
    | true =>
      rw [unlockLoop, ih]
      rfl
    | false => rfl

/-- The task goes on waiting only if nothing came while the queue was locked. -/
theorem prvUnlockQueue_eq (q : Queue α) :
    q.prvUnlockQueue = { q with waiting := q.waiting && decide (q.cTxLock ≤ 0), cTxLock := -1 } := by
  unfold prvUnlockQueue
  rw [unlockLoop_eq]
  have hzero : decide (q.cTxLock.toNat = 0) = decide (q.cTxLock ≤ 0) :=
    decide_eq_decide.mpr Int.toNat_eq_zero
  rw [hzero]

end
end Queue
end Bramble
