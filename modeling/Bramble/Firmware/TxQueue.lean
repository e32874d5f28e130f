import Bramble.CanMsg

/-!
# The transmit queue (`canbus.c`)

`cantxq` is drained by `canbus_flush`, called from tasks, and by the transmit interrupt.  All of them
test for a free mailbox, dequeue a message and hand it to `can_transmit`, each as a step of its own;
the interrupt preempts the tasks, the tasks preempt each other.  `can_transmit` picks a free mailbox;
when there is none it returns -1, which nobody looks at, and the message is gone.  The transmit
interrupt is enabled by a task that finds messages waiting when it leaves the loop, and disabled by
the interrupt that finds none.

* `txQueue`         the machine, with the messages accepted, placed and dropped; `κ` are the tasks and
                    the interrupt `isr`;
* `Attended`        the invariant: waiting messages have the interrupt or a task on its way to the
                    last test;
* `never_stranded`  it holds in every reachable state.
-/

namespace Bramble

/-- a message, with its number among those accepted by `canbus_send` -/
abbrev Entry := Nat × CanMsg

/-- program points of `canbus_flush` and of `usb_hp_can_tx_isr` -/
inductive FlushPc where
  | idle
  /-- at `can_available_mailbox` -/
  | test
  /-- at `xQueueReceive` -/
  | receive
  /-- at `can_transmit` -/
  | transmit (e : Entry)
  /-- at the test of the queue after the loop -/
  | last
  /-- at `can_enable_irq`, in the interrupt at `can_disable_irq` -/
  | irq
  deriving DecidableEq

structure TxQueue (κ : Type) where
  cantxq : List Entry
  /-- the mailboxes in use -/
  boxes : List Entry
  /-- `CAN_IER_TMEIE` -/
  tmeie : Bool
  pc : κ → FlushPc
  /-- `canbus_send` returned 0, or its `canbus_flush` still runs -/
  accepted : List Entry
  /-- `can_transmit` found a mailbox -/
  placed : List Entry
  /-- `can_transmit` returned -1 -/
  dropped : List Entry

inductive TxAct (κ : Type) where
  /-- the task calls `canbus_send` -/
  | send (k : κ) (m : CanMsg)
  /-- one step of a flush -/
  | run (k : κ)
  /-- the transmit interrupt -/
  | irq
  /-- the hardware is done with the `i`-th mailbox in use -/
  | sent (i : Nat)
  deriving DecidableEq

namespace TxQueue

def txQueueDepth : Nat := 16

variable {κ : Type} [DecidableEq κ]

def goto (s : TxQueue κ) (k : κ) (pc : FlushPc) : TxQueue κ :=
  { s with pc := Function.update s.pc k pc }

def canAvailableMailbox (s : TxQueue κ) : Bool := s.boxes.length < 3

def canTransmit (s : TxQueue κ) (e : Entry) : TxQueue κ :=
  if s.canAvailableMailbox then { s with boxes := s.boxes ++ [e], placed := s.placed ++ [e] }
  else { s with dropped := s.dropped ++ [e] }

def canbusSend (s : TxQueue κ) (k : κ) (m : CanMsg) : TxQueue κ :=
  if s.cantxq.length < txQueueDepth then
    { s with
      cantxq := s.cantxq ++ [(s.accepted.length, m)]
      accepted := s.accepted ++ [(s.accepted.length, m)] }.goto k .test
  else s

/-- one step of `canbus_flush`, or of `usb_hp_can_tx_isr` -/
def canbusFlush (isr : κ) (s : TxQueue κ) (k : κ) : Option (TxQueue κ) :=
  match s.pc k with
  | .idle => none
  | .test => some (s.goto k (if s.canAvailableMailbox then .receive else .last))
  | .receive =>
    match s.cantxq with
    | e :: q => some ({ s with cantxq := q }.goto k (.transmit e))
    | [] => some (s.goto k .last)
  | .transmit e => some ((s.canTransmit e).goto k .test)
  -- a flush enables the interrupt if messages wait, the interrupt disables it if none does
  | .last => some (s.goto k (if s.cantxq.isEmpty = decide (k = isr) then .irq else .idle))
  | .irq => some ({ s with tmeie := decide (k ≠ isr) }.goto k .idle)

def step (isr : κ) (s : TxQueue κ) : TxAct κ → Option (TxQueue κ)
  | .send k m =>
    if k ≠ isr ∧ s.pc isr = .idle ∧ s.pc k = .idle then some (s.canbusSend k m) else none
  | .run k => if k = isr ∨ s.pc isr = .idle then s.canbusFlush isr k else none
  | .irq => if s.tmeie = true ∧ s.pc isr = .idle then some (s.goto isr .test) else none
  | .sent i => if i < s.boxes.length then some { s with boxes := s.boxes.eraseIdx i } else none

/-- after `canbus_init` -/
def init : TxQueue κ := ⟨[], [], false, fun _ => .idle, [], [], []⟩

/-- Messages that wait have somebody to look after them: the interrupt is enabled, or a task is
between its `xQueueSendToBack` and the end of its flush.  The interrupt disables itself only with
the queue empty. -/
structure Attended (isr : κ) (s : TxQueue κ) : Prop where
  waiting : s.cantxq ≠ [] → s.tmeie = true ∨ ∃ k, k ≠ isr ∧ s.pc k ≠ .idle
  disabling : s.pc isr = .irq → s.cantxq = []

end TxQueue

def txQueue {κ : Type} [DecidableEq κ] (isr : κ) : Machine (TxQueue κ) (TxAct κ) :=
  ⟨TxQueue.step isr⟩

namespace TxQueue
variable {κ : Type} {isr : κ}

theorem init_attended : Attended isr (init : TxQueue κ) :=
  ⟨fun h => absurd rfl h, fun _ => rfl⟩

theorem canTransmit_pc (s : TxQueue κ) (e : Entry) :
    (s.canTransmit e).pc = s.pc ∧ (s.canTransmit e).cantxq = s.cantxq ∧
      (s.canTransmit e).tmeie = s.tmeie ∧ (s.canTransmit e).accepted = s.accepted := by
  unfold canTransmit
  split <;> exact ⟨rfl, rfl, rfl, rfl⟩

variable [DecidableEq κ] {s t u : TxQueue κ}

theorem goto_pc_self (s : TxQueue κ) (k : κ) (pc : FlushPc) : (s.goto k pc).pc k = pc := by
  unfold goto
  apply Function.update_self

theorem goto_pc_of_ne (s : TxQueue κ) {k k' : κ} (pc : FlushPc) (h : k' ≠ k) :
    (s.goto k pc).pc k' = s.pc k' := by
  unfold goto
  apply Function.update_of_ne h

/-- A task that goes on with its flush attends to the queue. -/
theorem attended_of_task {k : κ} {pc : FlushPc} (hk : k ≠ isr) (hn : s.pc isr = .idle)
    (hpc : pc ≠ .idle) : Attended isr (s.goto k pc) := by
  refine ⟨fun _ => .inr ⟨k, hk, ?_⟩, fun h => ?_⟩
  · rw [goto_pc_self]
    exact hpc
  · rw [goto_pc_of_ne s pc hk.symm, hn] at h
    cases h

/-- The interrupt takes messages away, and leaves the tasks and `CAN_IER_TMEIE` alone until it
disables itself. -/
theorem Attended.goto_isr {pc : FlushPc} (hs : Attended isr s) (hupc : u.pc = s.pc)
    (htmeie : u.tmeie = s.tmeie) (hq : u.cantxq ≠ [] → s.cantxq ≠ [])
    (hpc : pc = .irq → u.cantxq = []) : Attended isr (u.goto isr pc) := by
  refine ⟨fun h => ?_, fun h => ?_⟩
  · obtain h | ⟨k, hk, hpc⟩ := hs.waiting (hq h)
    · exact .inl (htmeie.trans h)
    · refine .inr ⟨k, hk, ?_⟩
      rw [goto_pc_of_ne _ pc hk, hupc]
      exact hpc
  · rw [goto_pc_self] at h
    exact hpc h

theorem Attended.flush_task {k : κ} (hk : k ≠ isr) (hn : s.pc isr = .idle)
    (h : s.canbusFlush isr k = some t) : Attended isr t := by
  unfold canbusFlush at h
  split at h
  · cases h
  · cases h
    exact attended_of_task hk hn (by split <;> exact FlushPc.noConfusion)
  · split at h
    · cases h
      exact attended_of_task hk hn FlushPc.noConfusion
    · cases h
      exact attended_of_task hk hn FlushPc.noConfusion
  · rename_i e _
    cases h
    refine attended_of_task hk ?_ FlushPc.noConfusion
    rw [(canTransmit_pc s e).1]
    exact hn
  · cases h
    -- the last test: an empty queue needs nobody, otherwise the task goes on to enable the interrupt
    by_cases hq : s.cantxq = []
    · refine ⟨fun h => absurd hq h, fun h => ?_⟩
      rw [goto_pc_of_ne s _ hk.symm, hn] at h
      cases h
    · apply attended_of_task hk hn
      have he : s.cantxq.isEmpty = false := List.isEmpty_eq_false_iff.mpr hq
      rw [he, decide_eq_false hk, if_pos rfl]
      exact FlushPc.noConfusion
  · cases h
    refine ⟨fun _ => .inl (decide_eq_true hk), fun h => ?_⟩
    rw [goto_pc_of_ne _ _ hk.symm] at h
    exact absurd (hn.symm.trans h) FlushPc.noConfusion

theorem Attended.flush_isr (hs : Attended isr s) (h : s.canbusFlush isr isr = some t) :
    Attended isr t := by
  unfold canbusFlush at h
  split at h
  · cases h
  · cases h
    exact hs.goto_isr rfl rfl id (by split <;> exact FlushPc.noConfusion)
  · rename_i hk
    split at h
    · rename_i e q hq
      cases h
      exact hs.goto_isr rfl rfl (fun _ => by rw [hq]; exact List.cons_ne_nil e q) FlushPc.noConfusion
    · cases h
      exact hs.goto_isr rfl rfl id FlushPc.noConfusion
  · rename_i e hk
    cases h
    obtain ⟨hpc, hq, htmeie, -⟩ := canTransmit_pc s e
    exact hs.goto_isr hpc htmeie (by rw [hq]; exact id) FlushPc.noConfusion
  · cases h
    refine hs.goto_isr rfl rfl id fun h => ?_
    by_contra hq
    rw [List.isEmpty_eq_false_iff.mpr hq] at h
    simp at h
  · rename_i hk
    cases h
    have hq := hs.disabling hk
    refine ⟨fun h => absurd hq h, fun h => ?_⟩
    rw [goto_pc_self] at h
    cases h

theorem Attended.step {a : TxAct κ} (hs : Attended isr s) (h : s.step isr a = some t) :
    Attended isr t := by
  cases a with
  | send k m =>
    obtain ⟨⟨hk, hn, _⟩, h⟩ := Option.ite_none_right_eq_some.mp h
    cases h
    unfold canbusSend
    split
    · exact attended_of_task hk hn FlushPc.noConfusion
    · exact hs
  | run k =>
    obtain ⟨hk, h⟩ := Option.ite_none_right_eq_some.mp h
    by_cases hisr : k = isr
    · rw [hisr] at h
      exact hs.flush_isr h
    · exact Attended.flush_task hisr (hk.resolve_left hisr) h
  | irq =>
    obtain ⟨_, h⟩ := Option.ite_none_right_eq_some.mp h
    cases h
    exact hs.goto_isr rfl rfl id FlushPc.noConfusion
  | sent i =>
    obtain ⟨_, h⟩ := Option.ite_none_right_eq_some.mp h
    cases h
    exact ⟨hs.waiting, hs.disabling⟩

theorem run_attended {as : List (TxAct κ)} (h : (txQueue isr).run init as = some t) :
    Attended isr t :=
  (Machine.run_free h).inv init_attended fun _ _ _ hx _ hs => hx.step hs

end TxQueue

/-- **No message is stranded.**  In every reachable state with messages in `cantxq`, the transmit
interrupt is enabled, or some task has enqueued a message and has not finished its flush. -/
theorem never_stranded (κ : Type) [DecidableEq κ] (isr : κ) (t : TxQueue κ) (as : List (TxAct κ))
    (h : (txQueue isr).run TxQueue.init as = some t) (hq : t.cantxq ≠ []) :
    t.tmeie = true ∨ ∃ k, k ≠ isr ∧ t.pc k ≠ .idle :=
  (TxQueue.run_attended h).waiting hq

/-- one task and the interrupt `none`: the task sends a message and runs its flush for `n` steps -/
def TxAct.sendAndRun (n : Nat) : List (TxAct (Option Unit)) :=
  .send (some ()) .zero :: List.replicate n (.run (some ()))

def TxAct.fourSends : List (TxAct (Option Unit)) :=
  List.flatten [sendAndRun 6, sendAndRun 6, sendAndRun 5, sendAndRun 3]

/-- Three messages fill the mailboxes; the fourth waits, with the task done and the interrupt
enabled. -/
theorem never_stranded_full : ∃ t : TxQueue (Option Unit),
    (txQueue none).run TxQueue.init TxAct.fourSends = some t ∧
    t.cantxq = [(3, .zero)] ∧ t.pc (some ()) = .idle ∧
    (t.tmeie = true ∨ ∃ k, k ≠ none ∧ t.pc k ≠ .idle) := by
  have hq : ((txQueue (none : Option Unit)).run TxQueue.init TxAct.fourSends).map TxQueue.cantxq =
    some [(3, .zero)] := rfl
  have hpc : ((txQueue (none : Option Unit)).run TxQueue.init TxAct.fourSends).map
    (fun t => t.pc (some ())) = some .idle := rfl
  obtain ⟨t, ht, hq⟩ := Option.map_eq_some_iff.mp hq
  rw [ht] at hpc
  exact ⟨t, ht, hq, Option.some.inj hpc,
    never_stranded _ none t _ ht (by rw [hq]; exact List.cons_ne_nil _ _)⟩

end Bramble
