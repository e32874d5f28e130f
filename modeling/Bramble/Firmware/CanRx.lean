import Bramble.Filters
import Bramble.Rtos.Queue
import Bramble.Lib.Progress

/-!
# The receive path of the CAN bus (`canbus.c`, `queue.c`)

A frame that passes the filter banks waits in the FIFO of the controller, which holds 3 and then drops
what comes (locked mode).  `usb_lp_can_rx0_isr` moves one message per interrupt into `canrxq`;
`canbus_recv` takes messages from there and sleeps without timeout when there is none.  The interrupt
may come between any two accesses of `xQueueReceive` to the queue.

* `canRx`               the machine;
* `CanRx.Inv`           the invariant: who holds the lock, and what came meanwhile;
* `canRx_in_order`      messages are received in order, less those that found the FIFO or the queue full;
* `never_sleeps_on_message`  the task does not sleep beside a message;
* `canRx_settles`       without new frames, everything is received after a bounded number of steps.
-/

namespace Bramble

/-- a frame in the FIFO -/
structure RxMailbox where
  id : UInt32
  /-- an extended id -/
  xmsgidf : Bool
  rtrf : Bool
  data : Payload
  deriving DecidableEq

/-- what the controller compares with a bank -/
def RxMailbox.register (f : RxMailbox) : UInt32 :=
  if f.xmsgidf then frameRegister f.id f.rtrf else f.id <<< 21 ||| if f.rtrf then 2 else 0

def RxMailbox.passes (f : RxMailbox) (banks : List FilterBank) : Bool :=
  banks.any fun b => b.enable && f.register &&& b.mask == b.id &&& b.mask

/-- `id_decode` into the `msg` that `can_receive` has filled in -/
def RxMailbox.msg (f : RxMailbox) : CanMsg := idDecode { CanMsg.zero with data := f.data } f.id

/-- the messages in frames; those with a standard id have none -/
def messages (fs : List RxMailbox) : List CanMsg :=
  fs.flatMap fun f => if f.xmsgidf then [f.msg] else []

/-- program points of `xQueueReceive`, called from `canbus_recv` -/
inductive CanRecvPc where
  | outside
  /-- at the critical section -/
  | first
  /-- at `vTaskSuspendAll` and `prvLockQueue` -/
  | lock
  /-- at `prvIsQueueEmpty` -/
  | empty
  /-- at `vTaskPlaceOnEventList` -/
  | place
  /-- at `prvUnlockQueue` -/
  | unlock
  /-- at `xTaskResumeAll`, or asleep -/
  | resume
  deriving DecidableEq

structure CanRx where
  banks : List FilterBank
  /-- FIFO 0 of the controller -/
  fifo : List RxMailbox
  canrxq : Queue CanMsg
  pc : CanRecvPc
  /-- the frames that passed the filters -/
  arrived : List RxMailbox
  /-- the messages that found the FIFO or the queue full -/
  lost : Nat
  /-- what `canbus_recv` returned -/
  received : List CanMsg

inductive CanRxAct where
  /-- a frame on the bus -/
  | frame (f : RxMailbox)
  /-- `usb_lp_can_rx0_isr` -/
  | isr
  /-- the task calls `canbus_recv (&msg, -1)` -/
  | call
  /-- one more step of it -/
  | run
  deriving DecidableEq

namespace CanRx

def rxQueueDepth : Nat := 16
def fifoDepth : Nat := 3

/-- the controller -/
def frame (s : CanRx) (f : RxMailbox) : CanRx :=
  if f.passes s.banks then
    if s.fifo.length < fifoDepth then { s with fifo := s.fifo ++ [f], arrived := s.arrived ++ [f] }
    else { s with arrived := s.arrived ++ [f], lost := s.lost + (messages [f]).length }
  else s

/-- `usb_lp_can_rx0_isr`; the interrupt is pending while the FIFO holds a frame -/
def rx0Isr (s : CanRx) : Option CanRx :=
  match s.fifo with
  | [] => none
  | f :: fifo =>
    if f.xmsgidf then
      let r := s.canrxq.xQueueSendToBackFromISR f.msg
      some { s with fifo := fifo, canrxq := r.1, lost := if r.2 then s.lost else s.lost + 1 }
    else some { s with fifo := fifo }

/-- the task in `xQueueReceive` with `portMAX_DELAY` -/
def recvStep (s : CanRx) : Option CanRx :=
  match s.pc with
  | .outside => none
  | .first =>
    match s.canrxq.tryReceive with
    | some (q, m) => some { s with canrxq := q, received := s.received ++ [m], pc := .outside }
    | none => some { s with pc := .lock }
  | .lock => some { s with canrxq := s.canrxq.prvLockQueue, pc := .empty }
  | .empty => some { s with pc := if s.canrxq.uxMessagesWaiting = 0 then .place else .unlock }
  | .place => some { s with canrxq := s.canrxq.placeOnEventList, pc := .unlock }
  | .unlock => some { s with canrxq := s.canrxq.prvUnlockQueue, pc := .resume }
  | .resume => if s.canrxq.waiting then none else some { s with pc := .first }

def step (s : CanRx) : CanRxAct → Option CanRx
  | .frame f => some (s.frame f)
  | .isr => s.rx0Isr
  | .call => if s.pc = .outside then some { s with pc := .first } else none
  | .run => s.recvStep

/-- after `canbus_init` and `canservices_init`, with the levels of the address pins -/
def init (mem : Nat → CanMsg) (gpio : Fin 5 → Bool) : CanRx where
  banks := (canservicesInit gpio).2
  fifo := []
  canrxq := .xQueueCreate mem rxQueueDepth
  pc := .outside
  arrived := []
  lost := 0
  received := []

/-- Who holds the lock, and whether messages came meanwhile. -/
def AtPoint (s : CanRx) (xs : List CanMsg) : Prop :=
  match s.pc with
  | .outside | .first | .lock => s.canrxq.cTxLock = -1 ∧ s.canrxq.waiting = false
  | .empty => (0 ≤ s.canrxq.cTxLock ∧ s.canrxq.cTxLock ≤ xs.length) ∧ s.canrxq.waiting = false
  | .place => s.canrxq.cTxLock = xs.length ∧ s.canrxq.waiting = false
  | .unlock => (0 ≤ s.canrxq.cTxLock ∧ s.canrxq.cTxLock ≤ xs.length) ∧
      (s.canrxq.waiting = true → s.canrxq.cTxLock = xs.length) ∧
      (s.canrxq.waiting = false → xs ≠ [])
  | .resume => s.canrxq.cTxLock = -1 ∧ (s.canrxq.waiting = true → xs = [])

/-- the invariant, with the messages `xs` in the queue -/
structure Inv (s : CanRx) (xs : List CanMsg) : Prop where
  length : s.canrxq.uxLength = rxQueueDepth
  has : s.canrxq.Has xs
  fifo : s.fifo.length ≤ fifoDepth
  order : (s.received ++ xs ++ messages s.fifo).Sublist (messages s.arrived)
  count : (s.received ++ xs ++ messages s.fifo).length + s.lost = (messages s.arrived).length
  passed : ∀ f ∈ s.arrived, f.passes s.banks = true
  point : s.AtPoint xs

end CanRx

def canRx : Machine CanRx CanRxAct := ⟨CanRx.step⟩

theorem messages_append (fs gs : List RxMailbox) :
    messages (fs ++ gs) = messages fs ++ messages gs := List.flatMap_append

theorem messages_cons (f : RxMailbox) (fs : List RxMailbox) :
    messages (f :: fs) = messages [f] ++ messages fs := messages_append [f] fs

theorem messages_extended {f : RxMailbox} (h : f.xmsgidf = true) : messages [f] = [f.msg] := by
  unfold messages
  rw [List.flatMap_singleton, if_pos h]

theorem messages_standard {f : RxMailbox} (h : ¬ f.xmsgidf = true) : messages [f] = [] := by
  unfold messages
  rw [List.flatMap_singleton, if_neg h]

namespace CanRx.Inv
variable {s t : CanRx} {xs : List CanMsg}

theorem frame (h : Inv s xs) (f : RxMailbox) : Inv (s.frame f) xs := by
  unfold CanRx.frame
  by_cases hpass : f.passes s.banks = true
  swap
  · rw [if_neg hpass]
    exact h
  rw [if_pos hpass]
  have hpassed : ∀ g ∈ s.arrived ++ [f], g.passes s.banks = true := by
    intro g hg
    rcases List.mem_append.mp hg with hg | hg
    · exact h.passed g hg
    · rw [List.mem_singleton.mp hg]
      exact hpass
  have hcount := h.count
  split
  · rename_i hroom
    refine ⟨h.length, h.has, ?_, ?_, ?_, hpassed, h.point⟩
    · rw [List.length_append, List.length_singleton]
      exact hroom
    · show (s.received ++ xs ++ messages (s.fifo ++ [f])).Sublist (messages (s.arrived ++ [f]))
      rw [messages_append, messages_append, ← List.append_assoc]
      exact h.order.append (List.Sublist.refl _)
    · show (s.received ++ xs ++ messages (s.fifo ++ [f])).length + s.lost =
        (messages (s.arrived ++ [f])).length
      rw [messages_append, messages_append, ← List.append_assoc, List.length_append,
        @List.length_append _ (messages s.arrived)]
      omega
  · refine ⟨h.length, h.has, h.fifo, ?_, ?_, hpassed, h.point⟩
    · show (s.received ++ xs ++ messages s.fifo).Sublist (messages (s.arrived ++ [f]))
      rw [messages_append]
      exact h.order.trans (List.sublist_append_left _ _)
    · show (s.received ++ xs ++ messages s.fifo).length + (s.lost + (messages [f]).length) =
        (messages (s.arrived ++ [f])).length
      rw [messages_append, @List.length_append _ (messages s.arrived)]
      omega

/-- A message enters the queue, and the task that waits for it wakes or will be woken. -/
theorem AtPoint_concat (h : s.AtPoint xs) (m : CanMsg) {q : Queue CanMsg} {fifo : List RxMailbox}
    (hq : (s.canrxq.cTxLock = -1 ∧ q.cTxLock = -1 ∧ q.waiting = false) ∨
      (s.canrxq.cTxLock ≠ -1 ∧ q.cTxLock = s.canrxq.cTxLock + 1 ∧ q.waiting = s.canrxq.waiting)) :
    CanRx.AtPoint { s with fifo := fifo, canrxq := q } (xs ++ [m]) := by
  have hlen : ((xs ++ [m]).length : Int) = xs.length + 1 := by
    rw [List.length_append, List.length_singleton]
    rfl
  unfold CanRx.AtPoint at h ⊢
  simp only
  rw [hlen]
  rcases hq with ⟨hu, hlock, hw⟩ | ⟨hu, hlock, hw⟩
  · cases hpc : s.pc <;> rw [hpc] at h
    case empty => exact absurd hu (by have := h.1; omega)
    case place => exact absurd hu (by have := h.1; omega)
    case unlock => exact absurd hu (by have := h.1; omega)
    case resume => exact ⟨hlock, fun hwt => absurd (hw.symm.trans hwt) Bool.false_ne_true⟩
    all_goals exact ⟨hlock, hw⟩
  · cases hpc : s.pc <;> rw [hpc] at h
    case empty => exact ⟨by have := h.1; omega, hw.trans h.2⟩
    case place => exact ⟨by have := h.1; omega, hw.trans h.2⟩
    case unlock =>
      refine ⟨by have := h.1; omega, fun hwt => ?_, fun _ => List.concat_ne_nil m xs⟩
      have := h.2.1 (hw ▸ hwt)
      omega
    all_goals exact absurd h.1 hu

theorem isr (h : Inv s xs) (hs : s.rx0Isr = some t) : ∃ xs', Inv t xs' := by
  have hcount := h.count
  have horder := h.order
  unfold CanRx.rx0Isr at hs
  cases hfifo : s.fifo with
  | nil =>
    rw [hfifo] at hs
    cases hs
  | cons f fifo =>
    rw [hfifo, messages_cons] at hcount horder
    have hlen : fifo.length ≤ CanRx.fifoDepth := by
      have := h.fifo
      rw [hfifo, List.length_cons] at this
      exact Nat.le_of_succ_le this
    simp only [hfifo] at hs
    by_cases hext : f.xmsgidf = true
    swap
    · rw [if_neg hext] at hs
      cases hs
      rw [messages_standard hext, List.nil_append] at hcount horder
      exact ⟨xs, h.length, h.has, hlen, horder, hcount, h.passed, h.point⟩
    rw [if_pos hext] at hs
    cases hs
    rw [messages_extended hext] at hcount horder
    rcases Queue.sendFromIsr_cases h.has f.msg with ⟨_, heq⟩ | ⟨_, q, hq, hql, heq, hlock⟩
    · rw [heq]
      refine ⟨xs, h.length, h.has, hlen, ?_, ?_, h.passed, h.point⟩
      · exact ((List.sublist_append_right [f.msg] _).append_left _).trans horder
      · show (s.received ++ xs ++ messages fifo).length + (s.lost + 1) = (messages s.arrived).length
        rw [List.length_append, @List.length_append _ [f.msg], List.length_singleton] at hcount
        rw [List.length_append]
        omega
    · rw [heq]
      have hassoc : s.received ++ (xs ++ [f.msg]) ++ messages fifo =
          s.received ++ xs ++ ([f.msg] ++ messages fifo) := by
        simp only [List.append_assoc]
      refine ⟨xs ++ [f.msg], hql.trans h.length, hq, hlen, ?_, ?_, h.passed,
        AtPoint_concat h.point f.msg hlock⟩
      · rw [hassoc]
        exact horder
      · show (s.received ++ (xs ++ [f.msg]) ++ messages fifo).length + s.lost = _
        rw [hassoc]
        exact hcount

/-- a message is taken -/
theorem take (h : Inv s xs) {q : Queue CanMsg} {m : CanMsg} (hpc : s.pc = .first)
    (hq : s.canrxq.tryReceive = some (q, m)) : ∃ xs', xs = m :: xs' ∧
      Inv { s with canrxq := q, received := s.received ++ [m], pc := .outside } xs' := by
  unfold Queue.tryReceive at hq
  obtain ⟨hpos, hq⟩ := Option.ite_none_right_eq_some.mp hq
  rw [h.has.count] at hpos
  obtain ⟨x, xs, rfl⟩ := List.exists_cons_of_length_pos hpos
  obtain ⟨hrest, hx⟩ := h.has.copyFrom
  rw [Option.some.inj hq] at hrest hx
  have hm : m = x := hx
  subst hm
  have hpoint := h.point
  unfold CanRx.AtPoint at hpoint
  rw [hpc] at hpoint
  have hkeep : q.uxLength = s.canrxq.uxLength ∧ q.cTxLock = s.canrxq.cTxLock ∧
      q.waiting = s.canrxq.waiting := by
    have hfst : q = s.canrxq.prvCopyDataFromQueue.1 := by rw [Option.some.inj hq]
    rw [hfst]
    exact ⟨rfl, rfl, rfl⟩
  have hassoc : s.received ++ [m] ++ xs ++ messages s.fifo =
      s.received ++ m :: xs ++ messages s.fifo := by
    rw [List.append_assoc s.received, List.singleton_append]
  refine ⟨xs, rfl, hkeep.1.trans h.length, hrest, h.fifo, ?_, ?_, h.passed,
    hkeep.2.1.trans hpoint.1, hkeep.2.2.trans hpoint.2⟩
  · show (s.received ++ [m] ++ xs ++ messages s.fifo).Sublist _
    rw [hassoc]
    exact h.order
  · show (s.received ++ [m] ++ xs ++ messages s.fifo).length + s.lost = _
    rw [hassoc]
    exact h.count

/-- The task goes on with the lock and the list of waiting tasks in another state. -/
theorem goto (h : Inv s xs) (cTxLock : Int) (waiting : Bool) {pc : CanRecvPc}
    (hpoint : CanRx.AtPoint { s with
      canrxq := { s.canrxq with cTxLock := cTxLock, waiting := waiting }, pc := pc } xs) :
    Inv { s with canrxq := { s.canrxq with cTxLock := cTxLock, waiting := waiting }, pc := pc } xs :=
  ⟨h.length, h.has.congr _ _, h.fifo, h.order, h.count, h.passed, hpoint⟩

theorem recv (h : Inv s xs) (hs : s.recvStep = some t) : ∃ xs', Inv t xs' := by
  have hpoint := h.point
  unfold CanRx.AtPoint at hpoint
  unfold CanRx.recvStep at hs
  cases hpc : s.pc with
  | outside =>
    rw [hpc] at hs
    cases hs
  | first =>
    rw [hpc] at hs hpoint
    simp only at hs
    cases hq : s.canrxq.tryReceive with
    | some r =>
      rw [hq] at hs
      cases hs
      obtain ⟨xs', _, hinv⟩ := h.take hpc hq
      exact ⟨xs', hinv⟩
    | none =>
      rw [hq] at hs
      cases hs
      exact ⟨xs, h.goto s.canrxq.cTxLock s.canrxq.waiting hpoint⟩
  | lock =>
    rw [hpc] at hs hpoint
    cases hs
    have hlock : s.canrxq.prvLockQueue = { s.canrxq with cTxLock := 0 } := if_pos hpoint.1
    rw [hlock]
    exact ⟨xs, h.goto 0 s.canrxq.waiting ⟨⟨Int.le_refl 0, Int.natCast_nonneg _⟩, hpoint.2⟩⟩
  | empty =>
    rw [hpc] at hs hpoint
    cases hs
    refine ⟨xs, h.goto s.canrxq.cTxLock s.canrxq.waiting ?_⟩
    unfold CanRx.AtPoint
    rw [h.has.count]
    by_cases hempty : xs.length = 0
    · -- nothing can have come since the lock
      have hlock : s.canrxq.cTxLock = xs.length := by omega
      rw [if_pos hempty]
      exact ⟨hlock, hpoint.2⟩
    · rw [if_neg hempty]
      refine ⟨hpoint.1, fun hw => absurd (hpoint.2.symm.trans hw) Bool.false_ne_true, fun _ hnil => ?_⟩
      rw [hnil] at hempty
      exact hempty rfl
  | place =>
    rw [hpc] at hs hpoint
    cases hs
    have hlock : 0 ≤ s.canrxq.cTxLock ∧ s.canrxq.cTxLock ≤ xs.length := by omega
    exact ⟨xs, h.goto s.canrxq.cTxLock true
      ⟨hlock, fun _ => hpoint.1, fun hw => absurd hw.symm Bool.false_ne_true⟩⟩
  | unlock =>
    rw [hpc] at hs hpoint
    cases hs
    rw [Queue.prvUnlockQueue_eq]
    refine ⟨xs, h.goto (-1) _ ⟨rfl, fun hw => ?_⟩⟩
    obtain ⟨hwait, hnone⟩ := Bool.and_eq_true_iff.mp hw
    have hcount := hpoint.2.1 hwait
    have hle := of_decide_eq_true hnone
    exact List.eq_nil_of_length_eq_zero (by omega)
  | resume =>
    rw [hpc] at hs hpoint
    simp only at hs
    split at hs
    · cases hs
    · rename_i hawake
      cases hs
      exact ⟨xs, h.goto s.canrxq.cTxLock s.canrxq.waiting
        ⟨hpoint.1, Bool.eq_false_of_not_eq_true hawake⟩⟩

theorem step {a : CanRxAct} (h : Inv s xs) (hs : s.step a = some t) : ∃ xs', Inv t xs' := by
  cases a with
  | frame f =>
    cases hs
    exact ⟨xs, h.frame f⟩
  | isr => exact h.isr hs
  | call =>
    obtain ⟨hpc, hs⟩ := Option.ite_none_right_eq_some.mp hs
    cases hs
    have hpoint := h.point
    unfold CanRx.AtPoint at hpoint
    rw [hpc] at hpoint
    exact ⟨xs, h.goto s.canrxq.cTxLock s.canrxq.waiting hpoint⟩
  | run => exact h.recv hs

theorem init (mem : Nat → CanMsg) (gpio : Fin 5 → Bool) : Inv (CanRx.init mem gpio) [] :=
  ⟨rfl, Queue.has_create mem (by decide), Nat.zero_le _, List.Sublist.refl _, rfl,
    fun f hf => absurd hf List.not_mem_nil, rfl, rfl⟩

end CanRx.Inv

section
variable {mem : Nat → CanMsg} {gpio : Fin 5 → Bool} {s : CanRx} {as : List CanRxAct}

theorem canRx_inv (h : canRx.run (CanRx.init mem gpio) as = some s) : ∃ xs, s.Inv xs :=
  (Machine.run_free h).inv (I := fun s => ∃ xs, CanRx.Inv s xs) ⟨[], .init mem gpio⟩
    fun _ _ _ hx _ hs => hx.elim fun _ hq => hq.step hs

theorem canRx_banks (h : canRx.run (CanRx.init mem gpio) as = some s) :
    s.banks = (canservicesInit gpio).2 := by
  refine (Machine.run_free h).inv (I := fun s => s.banks = (canservicesInit gpio).2) rfl ?_
  intro x a y hx _ hs
  cases a with
  | frame f =>
    cases hs
    unfold CanRx.frame
    split
    · split <;> exact hx
    · exact hx
  | isr =>
    replace hs : x.rx0Isr = some y := hs
    unfold CanRx.rx0Isr at hs
    split at hs
    · cases hs
    · split at hs <;> cases hs <;> exact hx
  | call =>
    obtain ⟨_, hs⟩ := Option.ite_none_right_eq_some.mp hs
    cases hs
    exact hx
  | run =>
    replace hs : x.recvStep = some y := hs
    unfold CanRx.recvStep at hs
    split at hs
    · cases hs
    · split at hs <;> cases hs <;> exact hx
    · cases hs; exact hx
    · cases hs; exact hx
    · cases hs; exact hx
    · cases hs; exact hx
    · split at hs
      · cases hs
      · cases hs; exact hx

end

theorem mem_messages {fs : List RxMailbox} {m : CanMsg} (h : m ∈ messages fs) :
    ∃ f ∈ fs, f.xmsgidf = true ∧ m = f.msg := by
  obtain ⟨f, hf, hm⟩ := List.mem_flatMap.mp h
  by_cases hext : f.xmsgidf = true
  · rw [if_pos hext] at hm
    exact ⟨f, hf, hext, List.mem_singleton.mp hm⟩
  · rw [if_neg hext] at hm
    exact absurd hm List.not_mem_nil

/-- What passes the bank of `canservices_init` is for this device. -/
theorem passes_dst {gpio : Fin 5 → Bool} {f : RxMailbox} (hext : f.xmsgidf = true)
    (h : f.passes (canservicesInit gpio).2 = true) :
    f.msg.dst.val = (canservicesInit gpio).1.toNat := by
  have hcontrol := canservicesInit_control gpio
  obtain ⟨b, hb, hpass⟩ := List.any_eq_true.mp h
  rw [Bool.and_eq_true, beq_iff_eq] at hpass
  unfold RxMailbox.register at hpass
  rw [if_pos hext] at hpass
  have haddr : (canservicesInit gpio).1.toNat = (⟨(canservicesInit gpio).1.toNat, by omega⟩ : Addr).val :=
    rfl
  exact congrArg Fin.val ((canservicesInit_accepts gpio haddr { CanMsg.zero with data := f.data } f.id
    f.rtrf).mp ⟨b, hb, hpass⟩)

/-- **Messages are received in order, once, by their addressee.**  What `canbus_recv` returned, then
what is in `canrxq`, then what is in the FIFO of the controller, is what passed the filters, in that
order, less the messages that found the FIFO or the queue full; and all of it carries the address of
this device. -/
theorem canRx_in_order (mem : Nat → CanMsg) (gpio : Fin 5 → Bool) (as : List CanRxAct) (s : CanRx)
    (h : canRx.run (CanRx.init mem gpio) as = some s) :
    (s.received ++ s.canrxq.contents ++ messages s.fifo).Sublist (messages s.arrived) ∧
      (s.received ++ s.canrxq.contents ++ messages s.fifo).length + s.lost =
        (messages s.arrived).length ∧
      ∀ m ∈ s.received, m.dst.val = (canservicesInit gpio).1.toNat := by
  obtain ⟨xs, hinv⟩ := canRx_inv h
  rw [hinv.has.contents]
  refine ⟨hinv.order, hinv.count, fun m hm => ?_⟩
  obtain ⟨f, hf, hext, rfl⟩ := mem_messages (hinv.order.subset
    (List.mem_append_left _ (List.mem_append_left _ hm)))
  have hpass := hinv.passed f hf
  rw [canRx_banks h] at hpass
  exact passes_dst hext hpass

/-- a frame to the address `dst` -/
def frameTo (dst : Addr) (seq : Fin 16) : RxMailbox :=
  ⟨idEncode { CanMsg.zero with dst := dst, seq := seq }, true, false, .empty⟩

/-- a message while the queue is locked, a frame for another address, and one that stays in the FIFO -/
def lockedMessage : List CanRxAct :=
  [.call, .run, .run, .run, .run, .frame (frameTo 16 0), .frame (frameTo 17 1), .isr, .run, .run, .run,
    .frame (frameTo 16 2)]

theorem canRx_in_order_locked :
    ∃ s, canRx.run (CanRx.init (fun _ => .zero) fun _ => false) lockedMessage = some s ∧
      s.received = [(frameTo 16 0).msg] ∧ s.arrived = [frameTo 16 0, frameTo 16 2] ∧
      (s.received ++ s.canrxq.contents ++ messages s.fifo).Sublist (messages s.arrived) ∧
      ∀ m ∈ s.received, m.dst.val = (canservicesInit fun _ => false).1.toNat := by
  have hend : (canRx.run (CanRx.init (fun _ => .zero) fun _ => false) lockedMessage).map
      (fun s => (s.received, s.arrived)) =
        some ([(frameTo 16 0).msg], [frameTo 16 0, frameTo 16 2]) := by
    decide
  obtain ⟨s, hs, hend⟩ := Option.map_eq_some_iff.mp hend
  rw [Prod.mk.injEq] at hend
  obtain ⟨horder, _, hdst⟩ := canRx_in_order (fun _ => .zero) (fun _ => false) lockedMessage s hs
  exact ⟨s, hs, hend.1, hend.2, horder, hdst⟩

/-- **The task does not sleep beside a message.**  When `canbus_recv` sleeps, `canrxq` is empty,
whatever the interrupt did while the task was on its way; and the lock never counts beyond the depth
of the queue. -/
theorem never_sleeps_on_message (mem : Nat → CanMsg) (gpio : Fin 5 → Bool) (as : List CanRxAct)
    (s : CanRx) (h : canRx.run (CanRx.init mem gpio) as = some s) :
    (s.pc = .resume → s.canrxq.waiting = true → s.canrxq.contents = []) ∧
      s.canrxq.cTxLock ≤ CanRx.rxQueueDepth := by
  obtain ⟨xs, hinv⟩ := canRx_inv h
  have hpoint := hinv.point
  have hroom := hinv.has.room
  rw [hinv.length] at hroom
  unfold CanRx.AtPoint at hpoint
  refine ⟨fun hpc hw => ?_, ?_⟩
  · rw [hpc] at hpoint
    rw [hinv.has.contents]
    exact hpoint.2 hw
  · cases hpc : s.pc <;> rw [hpc] at hpoint
    all_goals
      have := hpoint.1
      omega

/-- The task goes to sleep, and nothing is there. -/
theorem never_sleeps_on_message_empty :
    ∃ s, canRx.run (CanRx.init (fun _ => .zero) fun _ => false) [.call, .run, .run, .run, .run, .run] =
        some s ∧ s.pc = .resume ∧ s.canrxq.waiting = true ∧ s.canrxq.contents = [] := by
  have hend : (canRx.run (CanRx.init (fun _ => .zero) fun _ => false)
      [.call, .run, .run, .run, .run, .run]).map (fun s => (s.pc, s.canrxq.waiting)) =
        some (.resume, true) := by
    decide
  obtain ⟨s, hs, hend⟩ := Option.map_eq_some_iff.mp hend
  rw [Prod.mk.injEq] at hend
  exact ⟨s, hs, hend.1, hend.2,
    (never_sleeps_on_message (fun _ => .zero) (fun _ => false) _ s hs).1 hend.1 hend.2⟩

/-! ## coming to rest -/

namespace CanRx

/-- the interrupt and the task, but no new frame -/
def Moving (_ : CanRx) (a : CanRxAct) : Prop := a = .isr ∨ a = .call ∨ a = .run

instance (s : CanRx) (a : CanRxAct) : Decidable (Moving s a) := inferInstanceAs (Decidable (_ ∨ _))

/-- The FIFO is empty, and the task sleeps. -/
structure Settled (s : CanRx) : Prop where
  fifo : s.fifo = []
  pc : s.pc = .resume
  asleep : s.canrxq.waiting = true

end CanRx

/-- steps beyond the sleep that a message in the queue prevents -/
def moreSteps (n : Nat) : Nat := if n = 0 then 0 else 8

theorem moreSteps_zero : moreSteps 0 = 0 := rfl

theorem moreSteps_pos {n : Nat} (h : n ≠ 0) : moreSteps n = 8 := if_neg h

theorem moreSteps_le (n : Nat) : moreSteps n ≤ 8 := by
  unfold moreSteps
  split <;> omega

/-- steps up to the sleep, with `n` messages in the queue -/
def CanRecvPc.work (n : Nat) (waiting : Bool) : CanRecvPc → Nat
  | .outside => 7
  | .first => 6
  | .lock => 5 + moreSteps n
  | .empty => 4 + moreSteps n
  | .place => 3 + moreSteps n
  | .unlock => 2 + moreSteps n
  | .resume => if waiting then 0 else 7

def CanRx.work (s : CanRx) : Nat :=
  11 * s.fifo.length + 2 * s.canrxq.uxMessagesWaiting +
    s.pc.work s.canrxq.uxMessagesWaiting s.canrxq.waiting

section
variable {s t : CanRx} {xs : List CanMsg}

/-- One more message makes at most 8 more steps. -/
theorem work_message (pc : CanRecvPc) (n : Nat) (waiting waiting' : Bool) :
    pc.work (n + 1) waiting' ≤ pc.work n waiting + 8 := by
  have hmore := moreSteps_le (n + 1)
  cases pc <;> simp only [CanRecvPc.work]
  case resume => cases waiting' <;> exact Nat.le_add_left_of_le (by decide)
  all_goals omega

theorem isr_work (h : s.Inv xs) (hs : s.rx0Isr = some t) : t.work < s.work := by
  unfold CanRx.rx0Isr at hs
  cases hfifo : s.fifo with
  | nil =>
    rw [hfifo] at hs
    cases hs
  | cons f fifo =>
    simp only [hfifo] at hs
    have hwork : s.work = 11 * (fifo.length + 1) + 2 * s.canrxq.uxMessagesWaiting +
        s.pc.work s.canrxq.uxMessagesWaiting s.canrxq.waiting := by
      unfold CanRx.work
      rw [hfifo, List.length_cons]
    rw [hwork]
    by_cases hext : f.xmsgidf = true
    swap
    · rw [if_neg hext] at hs
      cases hs
      unfold CanRx.work
      simp only
      omega
    rw [if_pos hext] at hs
    cases hs
    rcases Queue.sendFromIsr_cases h.has f.msg with ⟨_, heq⟩ | ⟨_, q, hq, _, heq, _⟩
    · rw [heq]
      unfold CanRx.work
      simp only
      omega
    · rw [heq]
      have hn : q.uxMessagesWaiting = s.canrxq.uxMessagesWaiting + 1 := by
        rw [hq.count, h.has.count, List.length_append, List.length_singleton]
      have hpc := work_message s.pc s.canrxq.uxMessagesWaiting s.canrxq.waiting q.waiting
      unfold CanRx.work
      simp only [hn]
      omega

theorem recv_work (h : s.Inv xs) (hs : s.recvStep = some t) : t.work < s.work := by
  have hpoint := h.point
  unfold CanRx.AtPoint at hpoint
  unfold CanRx.recvStep at hs
  unfold CanRx.work
  cases hpc : s.pc with
  | outside =>
    rw [hpc] at hs
    cases hs
  | first =>
    rw [hpc] at hs
    simp only at hs
    cases hq : s.canrxq.tryReceive with
    | some r =>
      rw [hq] at hs
      cases hs
      unfold Queue.tryReceive at hq
      obtain ⟨hpos, hq⟩ := Option.ite_none_right_eq_some.mp hq
      cases hq
      have hn : s.canrxq.prvCopyDataFromQueue.1.uxMessagesWaiting =
        s.canrxq.uxMessagesWaiting - 1 := rfl
      simp only [hn, CanRecvPc.work]
      omega
    | none =>
      rw [hq] at hs
      cases hs
      have hn : s.canrxq.uxMessagesWaiting = 0 := by
        unfold Queue.tryReceive at hq
        by_contra hne
        rw [if_pos (Nat.pos_of_ne_zero hne)] at hq
        cases hq
      simp only [hn, CanRecvPc.work, moreSteps_zero]
      omega
  | lock =>
    rw [hpc] at hs hpoint
    cases hs
    have hlock : s.canrxq.prvLockQueue = { s.canrxq with cTxLock := 0 } := if_pos hpoint.1
    simp only [hlock, CanRecvPc.work]
    omega
  | empty =>
    rw [hpc] at hs
    cases hs
    by_cases hn : s.canrxq.uxMessagesWaiting = 0
    · rw [if_pos hn]
      simp only [CanRecvPc.work]
      omega
    · rw [if_neg hn]
      simp only [CanRecvPc.work]
      omega
  | place =>
    rw [hpc] at hs
    cases hs
    simp only [Queue.placeOnEventList, CanRecvPc.work]
    exact Nat.add_lt_add_left (Nat.add_lt_add_right (by decide) _) _
  | unlock =>
    rw [hpc] at hs hpoint
    cases hs
    rw [Queue.prvUnlockQueue_eq]
    simp only [CanRecvPc.work]
    rw [h.has.count]
    obtain ⟨_, hwaits, hwoken⟩ := hpoint
    by_cases hempty : xs = []
    · -- the task has been put on the list, and nothing came
      have hw : s.canrxq.waiting = true :=
        Bool.eq_true_of_not_eq_false fun hw => hwoken hw hempty
      have hlock := hwaits hw
      rw [hempty, List.length_nil] at hlock
      rw [hw, hlock, hempty]
      simp [moreSteps_zero]
    · have hlen : ¬ xs.length = 0 := fun h0 => hempty (List.eq_nil_of_length_eq_zero h0)
      rw [moreSteps_pos hlen]
      split <;> omega
  | resume =>
    rw [hpc] at hs
    simp only at hs
    split at hs
    · cases hs
    · rename_i hw
      cases hs
      simp only [CanRecvPc.work, if_neg hw]
      omega

theorem canRx_descends :
    Machine.Descends canRx (fun s => ∃ xs, CanRx.Inv s xs) CanRx.Moving CanRx.work where
  keeps _ _ _ hx _ hs := hx.elim fun _ hinv => hinv.step hs
  lowers x a y hx ha hs := by
    obtain ⟨xs, hinv⟩ := hx
    rcases ha with rfl | rfl | rfl
    · exact isr_work hinv hs
    · obtain ⟨hpc, hs⟩ := Option.ite_none_right_eq_some.mp hs
      cases hs
      unfold CanRx.work
      simp only [hpc, CanRecvPc.work]
      omega
    · exact recv_work hinv hs

theorem canRx_go (s : CanRx) : s.Settled ∨ ∃ a t, CanRx.Moving s a ∧ s.step a = some t := by
  have hrun : ∀ t, s.recvStep = some t → s.Settled ∨ ∃ a t, CanRx.Moving s a ∧ s.step a = some t :=
    fun t ht => .inr ⟨.run, t, .inr (.inr rfl), ht⟩
  unfold CanRx.recvStep at hrun
  cases hpc : s.pc <;> rw [hpc] at hrun
  case outside => exact .inr ⟨.call, _, .inr (.inl rfl), if_pos hpc⟩
  case first =>
    simp only at hrun
    cases hq : s.canrxq.tryReceive <;> rw [hq] at hrun <;> exact hrun _ rfl
  case resume =>
    simp only at hrun
    by_cases hw : s.canrxq.waiting = true
    swap
    · exact hrun _ (if_neg hw)
    cases hfifo : s.fifo with
    | nil => exact .inl ⟨hfifo, hpc, hw⟩
    | cons f fifo =>
      have hisr : ∃ t, s.rx0Isr = some t := by
        unfold CanRx.rx0Isr
        rw [hfifo]
        simp only
        split <;> exact ⟨_, rfl⟩
      obtain ⟨t, ht⟩ := hisr
      exact .inr ⟨.isr, t, .inl rfl, ht⟩
  all_goals exact hrun _ rfl

end

/-- **Everything is received.**  Without new frames the interrupt and the task have a bounded number
of steps, one of them can go on until the FIFO is empty and the task sleeps, and then every message
that arrived has been received, or was lost to a full FIFO or queue. -/
theorem canRx_settles (mem : Nat → CanMsg) (gpio : Fin 5 → Bool) (as bs : List CanRxAct) (s t : CanRx)
    (h : canRx.run (CanRx.init mem gpio) as = some s) (hmoves : canRx.Along CanRx.Moving s bs)
    (hrun : canRx.run s bs = some t) :
    bs.length + t.work ≤ s.work ∧ (t.Settled ∨ ∃ a u, CanRx.Moving t a ∧ canRx.step t a = some u) ∧
      (t.Settled → t.received.Sublist (messages t.arrived) ∧
        t.received.length + t.lost = (messages t.arrived).length) := by
  have hs := canRx_inv h
  obtain ⟨xs, hinv⟩ := canRx_descends.inv hs (Machine.run_reach hmoves hrun)
  refine ⟨canRx_descends.length hs hmoves hrun, canRx_go t, fun hset => ?_⟩
  have hpoint := hinv.point
  unfold CanRx.AtPoint at hpoint
  rw [hset.pc] at hpoint
  have hxs := hpoint.2 hset.asleep
  have horder := hinv.order
  have hcount := hinv.count
  have hnil : messages [] = [] := rfl
  rw [hxs, hset.fifo, hnil, List.append_nil, List.append_nil] at horder hcount
  exact ⟨horder, hcount⟩

/-- From the run above the message in the FIFO is received as well. -/
theorem canRx_settles_locked :
    ∃ s t, canRx.run (CanRx.init (fun _ => .zero) fun _ => false) lockedMessage = some s ∧
      canRx.run s [.isr, .call, .run, .call, .run, .run, .run, .run, .run] = some t ∧ t.Settled ∧
      t.received.Sublist (messages t.arrived) ∧
      t.received.length + t.lost = (messages t.arrived).length := by
  have hend : ((canRx.run (CanRx.init (fun _ => .zero) fun _ => false) lockedMessage).bind fun s =>
      (canRx.run s [.isr, .call, .run, .call, .run, .run, .run, .run, .run]).map fun t =>
        (t.fifo, t.pc, t.canrxq.waiting)) = some ([], .resume, true) := by
    decide
  obtain ⟨s, hs, hend⟩ := Option.bind_eq_some_iff.mp hend
  obtain ⟨t, ht, hend⟩ := Option.map_eq_some_iff.mp hend
  rw [Prod.mk.injEq, Prod.mk.injEq] at hend
  have hset : t.Settled := ⟨hend.1, hend.2.1, hend.2.2⟩
  have hmoves : canRx.Along CanRx.Moving s [.isr, .call, .run, .call, .run, .run, .run, .run, .run] :=
    Machine.Along.of_actions (P := fun a : CanRxAct => a = .isr ∨ a = .call ∨ a = .run)
      (fun _ _ h => h) s (by decide)
  obtain ⟨_, _, hreceived⟩ := canRx_settles (fun _ => .zero) (fun _ => false) lockedMessage _ s t hs
    hmoves ht
  exact ⟨s, t, hs, ht, hset, hreceived hset⟩

end Bramble
