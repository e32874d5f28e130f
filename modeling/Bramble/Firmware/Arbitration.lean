import Bramble.CanId
import Bramble.Firmware.Bursts
import Bramble.Firmware.Canbus
import Bramble.Lib.Lists

/-!
# The order of a burst on the bus (`canbus.c`, `canservices.c`)

`cantxq` is a FIFO, but of the three mailboxes the controller sends the one with the lowest id
first. A burst keeps its order because its ids increase.

* `wire`              the transmit path with what has been sent on the bus;
* `Uncontended`       the guard: one flush at a time puts messages into mailboxes, and the lowest id is
                      sent first;
* `Wire.Fifo`         the invariant: what is queued was accepted after what is in a mailbox or sent;
* `line`              the console task in front of it;
* `Emitting`          the invariant inside a burst: the fields of its messages;
* `burst_in_order`    the ids of a burst increase, and its messages are sent in order.
-/

namespace Bramble

/-! ## ids -/

/-- Of two messages that differ in `seq` and `eot` only, the one with the greater number, or with
`eot`, has the greater id. -/
theorem idEncode_lt_of_seq {m m' : CanMsg} (hpri : m.pri = m'.pri) (hdst : m.dst = m'.dst)
    (hsrc : m.src = m'.src) (htype : m.type = m'.type) (hobj : m.object = m'.object)
    (heot : m.eot = false) (hseq : m.seq < m'.seq) : idEncode m < idEncode m' := by
  rw [UInt32.lt_iff_toNat_lt, idEncode_toNat, idEncode_toNat]
  unfold CanMsg.fields
  rw [hpri, hdst, hsrc, htype, hobj, heot]
  have hlt : m.seq.val < m'.seq.val := hseq
  simp only [BitField.pack]
  apply Nat.add_lt_add_of_lt_of_le hlt
  exact Nat.mul_le_mul_left _ (Nat.add_le_add_right (Nat.zero_le _) _)

/-! ## the transmit path and the bus -/

structure Wire where
  canbus : Canbus
  /-- what has been sent on the bus, in order -/
  bus : List Entry

namespace Wire

def step (s : Wire) (a : CanbusAct) : Option Wire :=
  (s.canbus.step .isr a).map fun c =>
    { canbus := c
      bus := match a with
        | .sent i => s.bus ++ (s.canbus.boxes[i]?).toList
        | _ => s.bus }

/-- after `canbus_init` -/
def init : Wire := ⟨TxQueue.init, []⟩

end Wire

def wire : Machine Wire CanbusAct := ⟨Wire.step⟩

/-- between the test for a free mailbox and `can_transmit` -/
def FlushPc.placing : FlushPc → Bool
  | .receive | .transmit _ => true
  | _ => false

/-- No flush finds a mailbox free while another has found one and has not used it; the message that
is sent has the lowest id. -/
def Uncontended (c : Canbus) : CanbusAct → Prop
  | .run k => c.pc k = .test → ∀ k', k' ≠ k → (c.pc k').placing = false
  | .sent i => ∀ e ∈ c.boxes[i]?, ∀ e' ∈ c.boxes, idEncode e.2 ≤ idEncode e'.2
  | .send _ _ | .irq => True

instance (k : Flusher) (P : Flusher → Prop) [DecidablePred P] : Decidable (∀ k', k' ≠ k → P k') :=
  decidable_of_iff ((.canrx ≠ k → P .canrx) ∧ (.cancon ≠ k → P .cancon) ∧ (.isr ≠ k → P .isr))
    ⟨fun h k' => by
      cases k' with
      | canrx => exact h.1
      | cancon => exact h.2.1
      | isr => exact h.2.2,
    fun h => ⟨h _, h _, h _⟩⟩

instance (c : Canbus) : ∀ a, Decidable (Uncontended c a)
  | .run _ => inferInstanceAs (Decidable (_ → ∀ _, _ → _))
  | .sent i => inferInstanceAs (Decidable (∀ e ∈ c.boxes[i]?, ∀ e' ∈ c.boxes, _))
  | .send _ _ | .irq => inferInstanceAs (Decidable True)

/-- The accepted messages are those sent or in a mailbox, and then, in order, those in hand and in the
queue; nothing overtakes a message with a lower id. -/
structure Wire.Fifo (s : Wire) : Prop where
  ledger : Ledger s.canbus
  queue : ∃ gone, s.canbus.accepted = gone ++ (s.canbus.held ++ s.canbus.cantxq) ∧
    gone.Perm (s.bus ++ s.canbus.boxes)
  alone : ∀ k k', (s.canbus.pc k).placing = true → (s.canbus.pc k').placing = true → k = k'
  room : ∀ k, (s.canbus.pc k).placing = true → s.canbus.boxes.length < 3
  order : ∀ w e' w', s.bus = w ++ e' :: w' → ∀ e ∈ s.canbus.accepted, e.1 < e'.1 →
    idEncode e.2 < idEncode e'.2 → e ∈ w

theorem FlushPc.held_of_not_placing {pc : FlushPc} (h : pc.placing = false) : pc.held = [] := by
  cases pc with
  | transmit e => cases h
  | _ => rfl

section
variable {c : Canbus}

theorem held_of_alone {k : Flusher} (h : ∀ k', k' ≠ k → (c.pc k').placing = false) :
    c.held = (c.pc k).held := by
  have hother : ∀ k', k' ≠ k → (c.pc k').held = [] := fun k' hne =>
    FlushPc.held_of_not_placing (h k' hne)
  unfold TxQueue.held
  cases k with
  | canrx =>
    rw [hother .cancon (by decide), hother .isr (by decide), List.append_nil, List.append_nil]
  | cancon =>
    rw [hother .canrx (by decide), hother .isr (by decide), List.nil_append, List.append_nil]
  | isr => rw [hother .canrx (by decide), hother .cancon (by decide), List.nil_append, List.nil_append]

/-- a step of a flush with nothing in hand -/
theorem held_goto_of_nil {k : Flusher} {pc : FlushPc} (h0 : (c.pc k).held = []) (h1 : pc.held = []) :
    (c.goto k pc).held = c.held := by
  have hpc : ∀ k', ((c.goto k pc).pc k').held = (c.pc k').held := by
    intro k'
    by_cases h : k' = k
    · rw [h, TxQueue.goto_pc_self, h0, h1]
    · rw [TxQueue.goto_pc_of_ne c pc h]
  unfold TxQueue.held
  rw [hpc, hpc, hpc]

/-- No flush but `k` is about to use a mailbox, and `k` is only if `pc` says so. -/
theorem placing_goto {k : Flusher} {pc : FlushPc} (h : ∀ k', k' ≠ k → (c.pc k').placing = false)
    {k' : Flusher} (hk : ((c.goto k pc).pc k').placing = true) : k' = k ∧ pc.placing = true := by
  by_cases hne : k' = k
  · rw [hne, TxQueue.goto_pc_self] at hk
    exact ⟨hne, hk⟩
  · rw [TxQueue.goto_pc_of_ne c pc hne, h k' hne] at hk
    cases hk

/-- A flush that is not about to use a mailbox does not count. -/
theorem placing_of_goto {k : Flusher} {pc : FlushPc} (h1 : pc.placing = false) {k' : Flusher}
    (hk : ((c.goto k pc).pc k').placing = true) : (c.pc k').placing = true := by
  by_cases hne : k' = k
  · rw [hne, TxQueue.goto_pc_self, h1] at hk
    cases hk
  · rw [TxQueue.goto_pc_of_ne c pc hne] at hk
    exact hk

theorem Ledger.increasing (h : Ledger c) : c.accepted.Pairwise fun e e' => e.1 < e'.1 := by
  have hr : (c.accepted.map Prod.fst).Pairwise (· < ·) := by
    rw [h.numbered]
    exact List.pairwise_lt_range
  exact List.pairwise_map.mp hr

end

namespace Wire.Fifo
variable {s : Wire} {c : Canbus}

theorem gone_of_lt (h : Ledger c) {gone rest : List Entry} (hg : c.accepted = gone ++ rest)
    {e e' : Entry} (he : e ∈ c.accepted) (he' : e' ∈ gone) (hlt : e.1 < e'.1) : e ∈ gone := by
  have hinc := h.increasing
  rw [hg] at he hinc
  rcases List.mem_append.mp he with hmem | hmem
  · exact hmem
  · exact absurd ((List.pairwise_append.mp hinc).2.2 e' he' e hmem) (by omega)

/-- a flush goes on, and no other has a mailbox in view -/
theorem goto (h : Fifo s) {k : Flusher} {pc : FlushPc} {gone q b : List Entry}
    {placed dropped : List Entry} (hk : ∀ k', k' ≠ k → (s.canbus.pc k').placing = false)
    (hl : Ledger ({ s.canbus with
      cantxq := q, boxes := b, placed := placed, dropped := dropped }.goto k pc))
    (hg : s.canbus.accepted = gone ++ (pc.held ++ q)) (hp : gone.Perm (s.bus ++ b))
    (hroom : pc.placing = true → b.length < 3) :
    Fifo { s with canbus := { s.canbus with
      cantxq := q, boxes := b, placed := placed, dropped := dropped }.goto k pc } := by
  refine ⟨hl, ⟨gone, ?_, hp⟩, fun k1 k2 h1 h2 => ?_, fun k' hk' => ?_, h.order⟩
  · rw [held_of_alone , TxQueue.goto_pc_self]
    · exact hg
    · intro k' hne
      rw [TxQueue.goto_pc_of_ne _ pc hne]
      exact hk k' hne
  · exact (placing_goto hk h1).1.trans (placing_goto hk h2).1.symm
  · exact hroom (placing_goto hk hk').2

/-- A flush begins, or goes on with nothing in hand and no mailbox in view. -/
theorem pass (h : Fifo s) {k : Flusher} {pc : FlushPc} (tmeie : Bool)
    (h0 : (s.canbus.pc k).held = []) (h1 : pc.placing = false) :
    Fifo { s with canbus := { s.canbus with tmeie := tmeie }.goto k pc } := by
  obtain ⟨gone, hg, hp⟩ := h.queue
  have hpc := FlushPc.held_of_not_placing h1
  have hl : Ledger { s.canbus with tmeie := tmeie } := ⟨h.ledger.numbered, h.ledger.balance⟩
  have hheld : (TxQueue.goto { s.canbus with tmeie := tmeie } k pc).held = s.canbus.held :=
    held_goto_of_nil h0 hpc
  refine ⟨hl.goto h0 hpc, ⟨gone, ?_, hp⟩, fun k1 k2 hk1 hk2 => ?_, fun k' hk' => ?_, h.order⟩
  · show s.canbus.accepted = gone ++ (TxQueue.held _ ++ s.canbus.cantxq)
    rw [hheld]
    exact hg
  · exact h.alone k1 k2 (placing_of_goto h1 hk1) (placing_of_goto h1 hk2)
  · exact h.room k' (placing_of_goto h1 hk')

theorem run (h : Fifo s) {k : Flusher} (hu : Uncontended s.canbus (.run k))
    (hs : s.canbus.step .isr (.run k) = some c) : Fifo { s with canbus := c } := by
  have hledger := ledger_step h.ledger hs
  obtain ⟨_, hflush⟩ := Option.ite_none_right_eq_some.mp hs
  obtain ⟨gone, hg, hp⟩ := h.queue
  unfold TxQueue.canbusFlush at hflush
  have hk : (s.canbus.pc k).placing = true → ∀ k', k' ≠ k → (s.canbus.pc k').placing = false :=
    fun hpc k' hne => Bool.eq_false_of_not_eq_true fun hk' => hne (h.alone k' k hk' hpc)
  cases hpc : s.canbus.pc k with
  | idle =>
    rw [hpc] at hflush
    cases hflush
  | test =>
    rw [hpc] at hflush
    cases hflush
    by_cases havail : s.canbus.canAvailableMailbox = true
    · have hk' := hu hpc
      rw [held_of_alone hk', hpc] at hg
      rw [if_pos havail] at hledger ⊢
      exact h.goto hk' hledger hg hp fun _ => of_decide_eq_true havail
    · rw [if_neg havail]
      exact h.pass _ (by rw [hpc]; rfl) rfl
  | receive =>
    have hk' := hk (by rw [hpc]; rfl)
    rw [held_of_alone hk', hpc] at hg
    rw [hpc] at hflush
    cases hq : s.canbus.cantxq with
    | nil =>
      simp only [hq] at hflush
      cases hflush
      exact h.pass _ (by rw [hpc]; rfl) rfl
    | cons e q =>
      simp only [hq] at hflush
      cases hflush
      rw [hq] at hg
      exact h.goto hk' hledger hg hp fun _ => h.room k (by rw [hpc]; rfl)
  | transmit e =>
    have hk' := hk (by rw [hpc]; rfl)
    rw [held_of_alone hk', hpc] at hg
    rw [hpc] at hflush
    cases hflush
    have havail : s.canbus.canAvailableMailbox = true :=
      decide_eq_true (h.room k (by rw [hpc]; rfl))
    have ht : s.canbus.canTransmit e = { s.canbus with
        boxes := s.canbus.boxes ++ [e], placed := s.canbus.placed ++ [e] } := if_pos havail
    rw [ht] at hledger ⊢
    have hg' : s.canbus.accepted = (gone ++ [e]) ++ ([] ++ s.canbus.cantxq) := by
      rw [hg, List.append_assoc]
      rfl
    refine h.goto hk' hledger hg' ?_ Bool.noConfusion
    rw [← List.append_assoc]
    exact hp.append_right [e]
  | last =>
    rw [hpc] at hflush
    cases hflush
    exact h.pass _ (by rw [hpc]; rfl) (by split <;> rfl)
  | irq =>
    rw [hpc] at hflush
    cases hflush
    exact h.pass _ (by rw [hpc]; rfl) rfl

theorem send (h : Fifo s) {k : Flusher} {m : CanMsg}
    (hs : s.canbus.step .isr (.send k m) = some c) : Fifo { s with canbus := c } := by
  have hledger := ledger_step h.ledger hs
  obtain ⟨⟨_, _, hpc⟩, hs⟩ := Option.ite_none_right_eq_some.mp hs
  cases hs
  unfold TxQueue.canbusSend at hledger ⊢
  by_cases hroom : s.canbus.cantxq.length < TxQueue.txQueueDepth
  · rw [if_pos hroom] at hledger ⊢
    obtain ⟨gone, hgone, hp⟩ := h.queue
    obtain ⟨e, he⟩ : ∃ e, e = (s.canbus.accepted.length, m) := ⟨_, rfl⟩
    rw [← he] at hledger ⊢
    have h0 : ({ s.canbus with
        cantxq := s.canbus.cantxq ++ [e], accepted := s.canbus.accepted ++ [e] } : Canbus).pc k =
          .idle := hpc
    refine ⟨hledger, ⟨gone, ?_, hp⟩, fun k1 k2 h1 h2 => ?_, fun k' hk' => ?_, ?_⟩
    · rw [held_goto_of_nil (by rw [h0]; rfl) rfl]
      show s.canbus.accepted ++ [e] = gone ++ (s.canbus.held ++ (s.canbus.cantxq ++ [e]))
      rw [hgone, List.append_assoc, List.append_assoc]
    · exact h.alone k1 k2 (placing_of_goto rfl h1) (placing_of_goto rfl h2)
    · exact h.room k' (placing_of_goto rfl hk')
    · intro w e' w' hbus e1 he1 hlt hid
      rcases List.mem_append.mp he1 with he1 | he1
      · exact h.order w e' w' hbus e1 he1 hlt hid
      · -- the new message comes after everything sent
        have he' : e' ∈ gone := hp.symm.subset (List.mem_append_left _ (by
          rw [hbus]
          exact List.mem_append_right _ List.mem_cons_self))
        have hlast := List.pairwise_append.mp hledger.increasing
        rw [List.mem_singleton.mp he1] at hlt
        have hlt' := hlast.2.2 e' (by rw [hgone]; exact List.mem_append_left _ he') e
          (List.mem_singleton_self e)
        omega
  · rw [if_neg hroom]
    exact h

theorem irq (h : Fifo s) (hs : s.canbus.step .isr .irq = some c) : Fifo { s with canbus := c } := by
  obtain ⟨⟨_, hpc⟩, hs⟩ := Option.ite_none_right_eq_some.mp hs
  cases hs
  exact h.pass s.canbus.tmeie (by rw [hpc]; rfl) rfl

/-- the message with the lowest id is sent -/
theorem sent (h : Fifo s) {i : Nat} (hg : Uncontended s.canbus (.sent i))
    (hs : s.canbus.step .isr (.sent i) = some c) :
    Fifo ⟨c, s.bus ++ (s.canbus.boxes[i]?).toList⟩ := by
  have hledger := ledger_step h.ledger hs
  obtain ⟨hi, hs⟩ := Option.ite_none_right_eq_some.mp hs
  cases hs
  obtain ⟨gone, hgone, hp⟩ := h.queue
  obtain ⟨e', he'⟩ : ∃ e', s.canbus.boxes[i]? = some e' := ⟨_, List.getElem?_eq_getElem hi⟩
  have hbox : e' ∈ s.canbus.boxes := List.mem_of_getElem? he'
  have hmin := hg e' he'
  rw [he', Option.toList_some]
  refine ⟨hledger, ⟨gone, hgone, ?_⟩, h.alone, fun k hk => ?_, ?_⟩
  · have hbi : s.canbus.boxes[i] = e' := Option.some.inj ((List.getElem?_eq_getElem hi).symm.trans he')
    have herase : s.canbus.boxes.Perm (e' :: s.canbus.boxes.eraseIdx i) := by
      rw [← hbi]
      exact (List.getElem_cons_eraseIdx_perm hi).symm
    rw [List.append_assoc]
    exact hp.trans (herase.append_left _)
  · have hlen := h.room k hk
    show (s.canbus.boxes.eraseIdx i).length < 3
    rw [List.length_eraseIdx_of_lt hi]
    omega
  · intro w e2 w' hbus e he hlt hid
    rcases concat_eq_append_cons hbus with ⟨rfl, rfl⟩ | ⟨w2, hbus'⟩
    · -- it is in a mailbox or sent, and in a mailbox it would have gone first
      have hge : e ∈ gone := gone_of_lt h.ledger hgone he
        (hp.symm.subset (List.mem_append_right _ hbox)) hlt
      rcases List.mem_append.mp (hp.subset hge) with hmem | hmem
      · exact hmem
      · exact absurd hid (UInt32.not_lt.mpr (hmin e hmem))
    · exact h.order w e2 w2 hbus' e he hlt hid

theorem step {a : CanbusAct} {t : Wire} (h : Fifo s) (hg : Uncontended s.canbus a)
    (hs : s.step a = some t) : Fifo t := by
  obtain ⟨c, hc, ht⟩ := Option.map_eq_some_iff.mp hs
  rw [← ht]
  cases a with
  | send k m => exact h.send hc
  | run k => exact h.run hg hc
  | irq => exact h.irq hc
  | sent i => exact h.sent hg hc

theorem init : Fifo Wire.init := by
  refine ⟨init_roomed.ledger, ⟨[], rfl, .refl _⟩, fun k k' h => Bool.noConfusion h, fun k hk => ?_, ?_⟩
  · cases hk
  · intro w e' w' h
    exact absurd h (by simp [Wire.init])

/-- **Messages accepted in the order of their ids are sent in that order.** -/
theorem prefix_sent (h : Fifo s) {l : List Entry} (hmem : ∀ e ∈ l, e ∈ s.canbus.accepted)
    (hl : l.Pairwise fun e e' => e.1 < e'.1 ∧ idEncode e.2 < idEncode e'.2) :
    s.bus.filter (· ∈ l) <+: l := by
  have hnodup : l.Nodup := hl.imp fun h' heq => by
    rw [heq] at h'
    exact absurd h'.1 (Nat.lt_irrefl _)
  obtain ⟨gone, hgone, hp⟩ := h.queue
  have hbus : s.bus.Nodup := by
    have hacc := h.ledger.nodup
    rw [hgone] at hacc
    exact (List.nodup_append'.mp (hp.nodup_iff.mp (List.nodup_append'.mp hacc).1)).1
  refine filter_prefix hnodup hbus fun w b w' hw l1 l2 hsplit a ha => ?_
  rw [hsplit] at hl hmem
  obtain ⟨hlt, hid⟩ := (List.pairwise_append.mp hl).2.2 a ha b List.mem_cons_self
  exact h.order w b w' hw a (hmem a (List.mem_append_left _ ha)) hlt hid

end Wire.Fifo

/-! ## the console task in front of it -/

structure Line where
  fw : Fw
  wire : Wire
  /-- DAT messages of the console task, as accepted by `canbus_send` -/
  emitted : List Entry

inductive LineAct where
  | node (a : NodeAct)
  /-- the flushes, the interrupt and the controller, and messages of the rx task -/
  | canbus (a : CanbusAct)

namespace Line

/-- the console task, when it is not in `canbus_send` -/
def taskStep (s : Line) (ev : TaskEv) : Option Line :=
  (consoleTask s.fw ev).bind fun r =>
    match r.2 with
    | .sent m =>
      -- `canbus_send` finds room in `cantxq`
      if s.wire.canbus.cantxq.length < TxQueue.txQueueDepth then
        (s.wire.step (.send .cancon m)).map fun w =>
          { fw := r.1, wire := w
            emitted := s.emitted ++ [(s.wire.canbus.accepted.length, m)] }
      else none
    | _ => some { s with fw := r.1 }

/-- neither `k` nor the interrupt is in a flush -/
def mayRun (s : Line) (k : Flusher) : Bool :=
  s.wire.canbus.pc k = .idle && s.wire.canbus.pc .isr = .idle

def step (s : Line) : LineAct → Option Line
  | .node (.uart c) => some { s with fw := { s.fw with serial := s.fw.serial.usart1IsrRx c } }
  | .node .usartTx => some { s with fw := { s.fw with serial := s.fw.serial.usart1IsrTx.1 } }
  | .node (.can m) =>
    if s.mayRun .canrx then some { s with fw := (canservicesRxTask s.fw m).1 } else none
  | .node (.task ev) => if s.mayRun .cancon then s.taskStep ev else none
  | .canbus (.send .cancon _) => none
  | .canbus a => (s.wire.step a).map fun w => { s with wire := w }

/-- after `canbus_init` and `canservices_init` -/
def init (a : Addr) : Line := ⟨Fw.init a, Wire.init, []⟩

/-- what a step does on the transmit path -/
def canbusAct (s : Line) : LineAct → Option CanbusAct
  | .canbus a => some a
  | .node (.task _) =>
    match s.fw.task.pc with
    | .built m => some (.send .cancon m)
    | _ => none
  | .node _ => none

end Line

def line : Machine Line LineAct := ⟨Line.step⟩

/-- the guard on what the step does on the transmit path -/
def Arbitrated (s : Line) (a : LineAct) : Prop :=
  ∀ b ∈ s.canbusAct a, Uncontended s.wire.canbus b

/-- The guard inside a burst: no send fails, the connection stays, and the wait is not over. -/
def InBurst (s : Line) : LineAct → Prop
  | .node (.task ev) => ev ≠ .sendFail ∧ s.fw.task.pc ≠ .wait
  | .node (.can m) => (canservicesRxTask s.fw m).1.console = s.fw.console
  | _ => True

instance (s : Line) (a : LineAct) : Decidable (Arbitrated s a) :=
  inferInstanceAs (Decidable (∀ b ∈ s.canbusAct a, _))

instance (s : Line) : ∀ a, Decidable (InBurst s a)
  | .node (.task _) => inferInstanceAs (Decidable (_ ∧ _))
  | .node (.can _) => inferInstanceAs (Decidable (_ = _))
  | .node (.uart _) | .node .usartTx | .canbus _ => inferInstanceAs (Decidable True)

/-- The messages `burst`, emitted after `before`, are what the task has sent of its burst. -/
structure Emitting (before burst : List Entry) (s : Line) : Prop where
  emitted : s.emitted = before ++ burst
  task : TaskOk s.fw burst.length (burst.any fun e => e.2.eot)
  pri : ∀ m, s.fw.task.pc = .built m → m.pri = 1
  short : (burst.any fun e => e.2.eot) = false → burst.length ≤ 15
  msgs : ∀ e ∈ burst, e.2.pri = 1 ∧ e.2.dst = s.fw.console.dstaddr ∧ e.2.src = s.fw.srcaddr ∧
    e.2.type = .dat ∧ e.2.object = s.fw.console.object
  numbered : burst.map (fun e => e.2.seq.val) = List.range burst.length
  ended : ∀ e ∈ burst.dropLast, e.2.eot = false

namespace Emitting
variable {before burst : List Entry} {s t : Line}

theorem congr (h : Emitting before burst s) (he : t.emitted = s.emitted)
    (hc : t.fw.console = s.fw.console) (ha : t.fw.srcaddr = s.fw.srcaddr)
    (hpc : t.fw.task.pc = s.fw.task.pc) (hseq : t.fw.task.seq = s.fw.task.seq) :
    Emitting before burst t :=
  { emitted := he.trans h.emitted
    task := h.task.congr hc ha hpc hseq
    pri := by rw [hpc]; exact h.pri
    short := h.short
    msgs := by rw [hc, ha]; exact h.msgs
    numbered := h.numbered
    ended := h.ended }

theorem increasing (h : Emitting before burst s) :
    burst.Pairwise fun e e' => idEncode e.2 < idEncode e'.2 := by
  rw [List.pairwise_iff_getElem]
  intro i j hi hj hij
  obtain ⟨hpri, hdst, hsrc, htype, hobj⟩ := h.msgs _ (List.getElem_mem hi)
  obtain ⟨hpri', hdst', hsrc', htype', hobj'⟩ := h.msgs _ (List.getElem_mem hj)
  have hseq : ∀ k (hk : k < burst.length), burst[k].2.seq.val = k := by
    intro k hk
    have hk' := congrArg (fun l => l[k]?) h.numbered
    simpa [List.getElem?_map, hk] using hk'
  have hlast : burst[i] ∈ burst.dropLast := by
    have hi' : i < burst.dropLast.length := by
      rw [List.length_dropLast]
      omega
    rw [← List.getElem_dropLast hi']
    exact List.getElem_mem hi'
  refine idEncode_lt_of_seq (hpri.trans hpri'.symm) (hdst.trans hdst'.symm) (hsrc.trans hsrc'.symm)
    (htype.trans htype'.symm) (hobj.trans hobj'.symm) (h.ended _ hlast) ?_
  show burst[i].2.seq.val < burst[j].2.seq.val
  rw [hseq i hi, hseq j hj]
  exact hij

end Emitting

theorem Line.step_canbus {s t : Line} {a : CanbusAct} (hs : s.step (.canbus a) = some t) :
    ∃ w, s.wire.step a = some w ∧ t = { s with wire := w } := by
  have hmap : ∀ {b : CanbusAct}, (s.wire.step b).map (fun w => { s with wire := w }) = some t →
      ∃ w, s.wire.step b = some w ∧ t = { s with wire := w } := fun hs => by
    obtain ⟨w, hw, ht⟩ := Option.map_eq_some_iff.mp hs
    exact ⟨w, hw, ht.symm⟩
  cases a with
  | send k m =>
    cases k with
    | cancon => cases hs
    | _ => exact hmap hs
  | _ => exact hmap hs

theorem TaskStep.pri {fw fw' : Fw} {ev : TaskEv} {e : TaskEff} (h : TaskStep fw ev fw' e) :
    ∀ m, fw'.task.pc = .built m → m.pri = 1 := by
  intro m hm
  cases h with
  | recv hpc =>
    have hm : (if fw.serial.rxq = [] then TaskPc.recv else .got (.ofList fw.serial.rxq)) = .built m :=
      hm
    split at hm <;> cases hm
  | build d a o hpc =>
    cases hm
    rfl
  | send m' hpc =>
    have hm : (if m'.eot then TaskPc.wait else .recv) = .built m := hm
    split at hm <;> cases hm
  | _ => cases hm

/-- before the wait, no message of the burst had `eot` -/
theorem TaskOk.open {fw : Fw} {n : Nat} {ended : Bool} (h : TaskOk fw n ended)
    (hw : fw.task.pc ≠ .wait) : ended = false := by
  unfold TaskOk at h
  cases hpc : fw.task.pc <;> rw [hpc] at h
  case wait => exact absurd hpc hw
  all_goals exact h.1

namespace Emitting
variable {before burst : List Entry} {s t : Line}

theorem quiet (h : Emitting before burst s) {ev : TaskEv} {fw : Fw} {e : TaskEff}
    (hr : consoleTask s.fw ev = some (fw, e)) (hw : s.fw.task.pc ≠ .wait)
    (hm : ∀ m, s.fw.task.pc ≠ .built m) : Emitting before burst { s with fw := fw } := by
  obtain ⟨_, hstep⟩ := consoleTask_step hr
  obtain ⟨hc, ha, _⟩ := consoleTask_console hr
  exact
    { emitted := h.emitted
      task := hstep.inBurst h.task hw hm (h.short (h.task.open hw))
      pri := hstep.pri
      short := h.short
      msgs := by rw [hc, ha]; exact h.msgs
      numbered := h.numbered
      ended := h.ended }

theorem send (h : Emitting before burst s) {m : CanMsg} (hpc : s.fw.task.pc = .built m) (w : Wire)
    (n : Nat) : Emitting before (burst ++ [(n, m)])
      { fw := s.fw.goto (if m.eot then .wait else .recv), wire := w
        emitted := s.emitted ++ [(n, m)] } := by
  have htask := h.task
  have hopen := htask.open (by rw [hpc]; exact TaskPc.noConfusion)
  unfold TaskOk at htask
  rw [hpc] at htask
  obtain ⟨_, _, hseq, _, hlast, hdst, hsrc, htype, hobj⟩ := htask
  have hany : ((burst ++ [(n, m)]).any fun e => e.2.eot) = m.eot := by
    rw [List.any_append, hopen, Bool.false_or, List.any_cons, List.any_nil, Bool.or_false]
  refine ⟨?_, ?_, ?_, ?_, ?_, ?_, ?_⟩
  · rw [h.emitted, List.append_assoc]
  · rw [hany, List.length_append, List.length_singleton]
    exact h.task.sent hpc
  · exact (TaskStep.send m hpc).pri
  · rw [hany, List.length_append, List.length_singleton]
    exact fun he => hlast he
  · intro e he
    rcases List.mem_append.mp he with he | he
    · exact h.msgs e he
    · rw [List.mem_singleton.mp he]
      exact ⟨h.pri m hpc, hdst, hsrc, htype, hobj⟩
  · rw [List.map_append, h.numbered, List.length_append, List.length_singleton, List.range_succ,
      List.map_singleton, hseq]
  · rw [List.dropLast_concat]
    exact fun e he => Bool.eq_false_of_not_eq_true fun heot =>
      absurd (List.any_eq_true.mpr ⟨e, he, heot⟩) (by rw [hopen]; exact Bool.false_ne_true)

theorem step (h : Emitting before burst s) {a : LineAct} (hg : InBurst s a)
    (hs : s.step a = some t) : ∃ burst', Emitting before burst' t := by
  cases a with
  | canbus a =>
    obtain ⟨w, _, rfl⟩ := Line.step_canbus hs
    exact ⟨burst, h.congr rfl rfl rfl rfl rfl⟩
  | node a =>
    cases a with
    | uart c =>
      cases hs
      exact ⟨burst, h.congr rfl rfl rfl rfl rfl⟩
    | usartTx =>
      cases hs
      exact ⟨burst, h.congr rfl rfl rfl rfl rfl⟩
    | can m =>
      obtain ⟨_, hs⟩ := Option.ite_none_right_eq_some.mp hs
      cases hs
      obtain ⟨hpc, hseq, hsrc⟩ := (canservicesRxTask_step s.fw m).pc
      exact ⟨burst, h.congr rfl hg hsrc hpc hseq⟩
    | task ev =>
      obtain ⟨_, hs⟩ := Option.ite_none_right_eq_some.mp hs
      obtain ⟨⟨fw, e⟩, hr, hs⟩ := Option.bind_eq_some_iff.mp hs
      obtain ⟨hfail, hw⟩ := hg
      by_cases hbuilt : ∃ m, s.fw.task.pc = .built m
      · obtain ⟨m, hpc⟩ := hbuilt
        have hstep := (consoleTask_step hr).2
        cases hstep with
        | send m' hpc' =>
          simp only at hs
          obtain ⟨_, hs⟩ := Option.ite_none_right_eq_some.mp hs
          obtain ⟨w, _, rfl⟩ := Option.map_eq_some_iff.mp hs
          exact ⟨_, h.send hpc' w _⟩
        | fail m' hpc' => exact absurd rfl hfail
        | recv hpc' => cases hpc.symm.trans hpc'
        | addr d hpc' => cases hpc.symm.trans hpc'
        | object d a hpc' => cases hpc.symm.trans hpc'
        | build d a o hpc' => cases hpc.symm.trans hpc'
        | notified hpc' => cases hpc.symm.trans hpc'
        | expired hpc' => cases hpc.symm.trans hpc'
      · have hm : ∀ m, s.fw.task.pc ≠ .built m := fun m hpc => hbuilt ⟨m, hpc⟩
        refine ⟨burst, ?_⟩
        have hquiet := h.quiet hr hw hm
        cases e with
        | sent m =>
          cases (consoleTask_step hr).2 with
          | send _ hpc' => exact absurd hpc' (hm _)
        | quiet =>
          cases hs
          exact hquiet
        | took bs =>
          cases hs
          exact hquiet

end Emitting

/-! ## whole runs -/

structure Line.Sound (s : Line) : Prop where
  fifo : s.wire.Fifo
  emitted : s.emitted.Sublist s.wire.canbus.accepted
  pri : ∀ m, s.fw.task.pc = .built m → m.pri = 1

theorem accepted_grows {c c' : Canbus} {a : CanbusAct} (h : c.step .isr a = some c') :
    c.accepted <+: c'.accepted := by
  cases canbus_step h with
  | send k m hk =>
    unfold TxQueue.canbusSend
    split
    · exact List.prefix_append _ _
    · exact List.prefix_refl _
  | transmit k e hk =>
    show _ <+: (c.canTransmit e).accepted
    unfold TxQueue.canTransmit
    split <;> exact List.prefix_refl _
  | _ => exact List.prefix_refl _

theorem Line.step_wire {s t : Line} {a : LineAct} (hs : s.step a = some t) :
    (t.wire = s.wire ∧ t.emitted = s.emitted) ∨
    ∃ b, s.canbusAct a = some b ∧ s.wire.step b = some t.wire ∧
      (t.emitted = s.emitted ∨ ∃ e, t.emitted = s.emitted ++ [e] ∧
        t.wire.canbus.accepted = s.wire.canbus.accepted ++ [e]) := by
  cases a with
  | canbus b =>
    obtain ⟨w, hw, rfl⟩ := Line.step_canbus hs
    exact .inr ⟨b, rfl, hw, .inl rfl⟩
  | node a =>
    cases a with
    | uart c =>
      cases hs
      exact .inl ⟨rfl, rfl⟩
    | usartTx =>
      cases hs
      exact .inl ⟨rfl, rfl⟩
    | can m =>
      obtain ⟨_, hs⟩ := Option.ite_none_right_eq_some.mp hs
      cases hs
      exact .inl ⟨rfl, rfl⟩
    | task ev =>
      obtain ⟨_, hs⟩ := Option.ite_none_right_eq_some.mp hs
      obtain ⟨⟨fw, e⟩, hr, hs⟩ := Option.bind_eq_some_iff.mp hs
      cases e with
      | quiet =>
        cases hs
        exact .inl ⟨rfl, rfl⟩
      | took bs =>
        cases hs
        exact .inl ⟨rfl, rfl⟩
      | sent m =>
        obtain ⟨hroom, hs⟩ := Option.ite_none_right_eq_some.mp hs
        obtain ⟨w, hw, rfl⟩ := Option.map_eq_some_iff.mp hs
        refine .inr ⟨.send .cancon m, ?_, hw, .inr ⟨_, rfl, ?_⟩⟩
        · cases (consoleTask_step hr).2 with
          | send _ hpc =>
            unfold Line.canbusAct
            rw [hpc]
        · obtain ⟨c, hc, rfl⟩ := Option.map_eq_some_iff.mp hw
          obtain ⟨_, hc⟩ := Option.ite_none_right_eq_some.mp hc
          cases hc
          show (s.wire.canbus.canbusSend .cancon m).accepted = _
          unfold TxQueue.canbusSend
          rw [if_pos hroom]
          rfl

theorem Line.step_pri {s t : Line} {a : LineAct} (hs : s.step a = some t)
    (hp : ∀ m, s.fw.task.pc = .built m → m.pri = 1) :
    ∀ m, t.fw.task.pc = .built m → m.pri = 1 := by
  cases a with
  | canbus b =>
    obtain ⟨w, _, rfl⟩ := Line.step_canbus hs
    exact hp
  | node a =>
    cases a with
    | uart c =>
      cases hs
      exact hp
    | usartTx =>
      cases hs
      exact hp
    | can m =>
      obtain ⟨_, hs⟩ := Option.ite_none_right_eq_some.mp hs
      cases hs
      rw [(canservicesRxTask_step s.fw m).pc.1]
      exact hp
    | task ev =>
      obtain ⟨_, hs⟩ := Option.ite_none_right_eq_some.mp hs
      obtain ⟨⟨fw, e⟩, hr, hs⟩ := Option.bind_eq_some_iff.mp hs
      have hfw : t.fw = fw := by
        cases e with
        | sent m =>
          obtain ⟨_, hs⟩ := Option.ite_none_right_eq_some.mp hs
          obtain ⟨w, _, rfl⟩ := Option.map_eq_some_iff.mp hs
          rfl
        | quiet => cases hs; rfl
        | took bs => cases hs; rfl
      rw [hfw]
      exact (consoleTask_step hr).2.pri

theorem Line.Sound.step {s t : Line} {a : LineAct} (h : s.Sound) (hg : Arbitrated s a)
    (hs : s.step a = some t) : t.Sound := by
  have hpri := Line.step_pri hs h.pri
  rcases Line.step_wire hs with ⟨hw, he⟩ | ⟨b, hb, hw, he⟩
  · exact ⟨by rw [hw]; exact h.fifo, by rw [hw, he]; exact h.emitted, hpri⟩
  · refine ⟨h.fifo.step (hg b hb) hw, ?_, hpri⟩
    rcases he with he | ⟨e, he, hacc⟩
    · obtain ⟨c, hc, hc'⟩ := Option.map_eq_some_iff.mp hw
      rw [he, ← hc']
      exact h.emitted.trans (accepted_grows hc).sublist
    · rw [he, hacc]
      exact h.emitted.append (List.Sublist.refl _)

theorem Line.init_sound (a : Addr) : (Line.init a).Sound :=
  ⟨.init, .refl _, fun _ h => TaskPc.noConfusion h⟩

theorem Line.accepted_mono {s t : Line} {as : List LineAct} (h : line.run s as = some t) :
    ∀ e ∈ s.wire.canbus.accepted, e ∈ t.wire.canbus.accepted := by
  refine (Machine.run_free h).inv
    (I := fun x => ∀ e ∈ s.wire.canbus.accepted, e ∈ x.wire.canbus.accepted) (fun _ he => he) ?_
  intro x a y hx _ hs e he
  rcases Line.step_wire hs with ⟨hw, _⟩ | ⟨b, _, hw, _⟩
  · rw [hw]
    exact hx e he
  · obtain ⟨c, hc, hc'⟩ := Option.map_eq_some_iff.mp hw
    rw [← hc']
    exact (accepted_grows hc).subset (hx e he)

/-- **A burst keeps its order on the bus.**  While the console task emits it, on one connection and
without a send that fails, the ids increase; and in any continuation of the run, what has been sent
of it is a first part of it, in order. -/
theorem burst_in_order (a : Addr) (past acts future : List LineAct) (s t u : Line)
    (hs : line.run (Line.init a) past = some s) (ht : line.run s acts = some t)
    (hu : line.run t future = some u)
    (hg : line.Along Arbitrated (Line.init a) (past ++ acts ++ future))
    (hstart : TaskOk s.fw 0 false) (hburst : line.Along InBurst s acts) :
    let burst := t.emitted.drop s.emitted.length
    (burst.Pairwise fun e e' => idEncode e.2 < idEncode e'.2) ∧
      u.wire.bus.filter (· ∈ burst) <+: burst := by
  have hst : line.run (Line.init a) (past ++ acts) = some t := by
    rw [Machine.run_append, hs]
    exact ht
  have hsu : line.run (Line.init a) (past ++ acts ++ future) = some u := by
    rw [Machine.run_append, hst]
    exact hu
  have hsound : ∀ {as : List LineAct} {x : Line}, line.run (Line.init a) as = some x →
      line.Along Arbitrated (Line.init a) as → x.Sound := fun hrun halong =>
    (Machine.run_reach halong hrun).inv (Line.init_sound a) fun _ _ _ hx hg hy => hx.step hg hy
  have hgt := ((Machine.along_append hst).mp hg).1
  have hgs := ((Machine.along_append hs).mp hgt).1
  -- the burst, from its beginning
  obtain ⟨burst, hemit⟩ := (Machine.run_reach hburst ht).inv
    (I := fun x => ∃ burst, Emitting s.emitted burst x)
    ⟨[], (List.append_nil _).symm, hstart, (hsound hs hgs).pri, fun _ => Nat.zero_le _,
      fun _ h => absurd h List.not_mem_nil, rfl, fun _ h => absurd h List.not_mem_nil⟩
    fun _ _ _ ⟨_, hx⟩ hg hy => hx.step hg hy
  have hdrop : t.emitted.drop s.emitted.length = burst := by
    rw [hemit.emitted, List.drop_left]
  have hsub : burst.Sublist t.wire.canbus.accepted := by
    refine List.Sublist.trans ?_ (hsound hst hgt).emitted
    rw [hemit.emitted]
    exact List.sublist_append_right _ _
  show (t.emitted.drop s.emitted.length).Pairwise _ ∧ _
  rw [hdrop]
  refine ⟨hemit.increasing, (hsound hsu hg).fifo.prefix_sent ?_ ?_⟩
  · exact fun e he => Line.accepted_mono hu e (hsub.subset he)
  · exact ((hsound hst hgt).fifo.ledger.increasing.sublist hsub).and hemit.increasing

/-- a console connection has just been accepted -/
def connectedLine : Line where
  fw := (Fw.init 16).connected 2 objConsolesend
  wire := Wire.init
  emitted := []

/-- The console task reads, builds and sends a message; before its flush begins the rx task sends one
of its own, and places both. -/
def sendOvertaken : List LineAct :=
  List.replicate 5 (.node (.task .run)) ++ [.canbus (.send .canrx .zero)] ++
    List.replicate 9 (.canbus (.run .canrx)) ++ List.replicate 3 (.canbus (.run .cancon))

/-- the same undisturbed, with one mailbox left -/
def sendOne : List LineAct :=
  List.replicate 5 (.node (.task .run)) ++ List.replicate 5 (.canbus (.run .cancon))

/-- 9 bytes make two messages -/
def nineBytes : List LineAct := List.replicate 9 (.node (.uart 97)) ++ sendOvertaken ++ sendOne

/-- the message of the rx task has the lowest id -/
def threeSent : List LineAct := [.canbus (.sent 1), .canbus (.sent 0), .canbus (.sent 0)]

theorem burst_in_order_two : ∃ t u, line.run connectedLine nineBytes = some t ∧
    line.run t threeSent = some u ∧ u.wire.bus.length = 3 ∧ t.emitted.length = 2 ∧
    (t.emitted.Pairwise fun e e' => idEncode e.2 < idEncode e'.2) ∧
      u.wire.bus.filter (· ∈ t.emitted) <+: t.emitted := by
  let conn : LineAct := .node (.can
    { CanMsg.zero with src := 2, type := .wo, object := objConsoleconn, data := .single objConsolesend })
  have hs : line.run (Line.init 16) [conn] = some connectedLine := rfl
  have hlen : ((line.run connectedLine nineBytes).bind fun t =>
      (line.run t threeSent).map fun u => (u.wire.bus.length, t.emitted.length)) = some (3, 2) := by
    decide +kernel
  obtain ⟨t, ht, hlen⟩ := Option.bind_eq_some_iff.mp hlen
  obtain ⟨u, hu, hlen⟩ := Option.map_eq_some_iff.mp hlen
  obtain ⟨hbus, hemitted⟩ := Prod.mk.inj hlen
  have hguard : line.Along Arbitrated (Line.init 16) ([conn] ++ nineBytes ++ threeSent) := by
    decide +kernel
  have hburst : line.Along InBurst connectedLine nineBytes := by decide +kernel
  exact ⟨t, u, ht, hu, hbus, hemitted, burst_in_order 16 [conn] nineBytes _ connectedLine t u hs ht hu
    hguard ⟨rfl, rfl⟩ hburst⟩

end Bramble
