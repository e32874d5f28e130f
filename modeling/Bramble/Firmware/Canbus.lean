import Bramble.Firmware.TxQueue

/-!
# No message is lost on the way to the mailboxes (`canbus.c`)

The transmit queue with its two tasks.

* `canbus`               the machine `txQueue` of the rx task, the console task and the interrupt;
* `Ledger`               every accepted message is in exactly one place, a dropped one in none;
* `no_message_lost`      nothing is dropped if every dequeue finds a mailbox free for each message
                         in hand and one more;
* `no_message_lost_fails`  two overlapping flushes drop a message.
-/

namespace Bramble

/-! ## the machine -/

/-- who drains `cantxq`: `canbus_flush` in the rx task and in the console task, and
`usb_hp_can_tx_isr` -/
inductive Flusher where
  | canrx | cancon | isr
  deriving DecidableEq, Repr

abbrev Canbus := TxQueue Flusher

abbrev CanbusAct := TxAct Flusher

def canbus : Machine Canbus CanbusAct := txQueue Flusher.isr

/-- dequeued and not yet handed to `can_transmit` -/
def FlushPc.held : FlushPc → List Entry
  | .transmit e => [e]
  | _ => []

namespace TxQueue

def held (s : Canbus) : List Entry :=
  (s.pc .canrx).held ++ (s.pc .cancon).held ++ (s.pc .isr).held

/-- `can_transmit` was never called while all mailboxes were busy, and every accepted message is in
the queue, in hand, or was placed in a mailbox, once in all. -/
structure Safe (s : Canbus) : Prop where
  dropped : s.dropped = []
  once : ∀ e ∈ s.accepted, (s.cantxq ++ s.held ++ s.placed).count e = 1

end TxQueue

/-- When a flush takes a message from the queue, more mailboxes are free than messages are in
hand. -/
def Roomy (s : Canbus) : CanbusAct → Prop
  | .run k => s.pc k = .receive → s.cantxq ≠ [] → s.held.length + s.boxes.length < 3
  | _ => True

instance (s : Canbus) : ∀ a, Decidable (Roomy s a)
  | .run _ => inferInstanceAs (Decidable (_ → _ → _))
  | .send _ _ | .irq | .sent _ => inferInstanceAs (Decidable True)

/-! ## steps -/

/-- Everything that can happen to the messages in a step. -/
inductive CanbusStep (s : Canbus) : CanbusAct → Canbus → Prop
  | send (k : Flusher) (m : CanMsg) (hk : s.pc k = .idle) :
      CanbusStep s (.send k m) (s.canbusSend k m)
  /-- a flush goes on with no message in hand -/
  | move (k : Flusher) (pc : FlushPc) (tmeie : Bool) (a : CanbusAct) (h0 : (s.pc k).held = [])
      (h1 : pc.held = []) : CanbusStep s a ({ s with tmeie := tmeie }.goto k pc)
  | dequeue (k : Flusher) (e : Entry) (q : List Entry) (hk : s.pc k = .receive)
      (hq : s.cantxq = e :: q) : CanbusStep s (.run k) ({ s with cantxq := q }.goto k (.transmit e))
  | transmit (k : Flusher) (e : Entry) (hk : s.pc k = .transmit e) :
      CanbusStep s (.run k) ((s.canTransmit e).goto k .test)
  | sent (i : Nat) (hi : i < s.boxes.length) :
      CanbusStep s (.sent i) { s with boxes := s.boxes.eraseIdx i }

section
variable {s t : Canbus}

theorem canbusFlush_step {k : Flusher} (h : s.canbusFlush .isr k = some t) :
    CanbusStep s (.run k) t := by
  have hmove : ∀ pc : FlushPc, (s.pc k).held = [] → pc.held = [] →
      CanbusStep s (.run k) (s.goto k pc) := fun pc h0 h1 => .move k pc s.tmeie _ h0 h1
  unfold TxQueue.canbusFlush at h
  split at h
  · cases h
  · rename_i hk
    cases h
    refine hmove _ (by rw [hk]; rfl) ?_
    split <;> rfl
  · rename_i hk
    split at h
    · rename_i e q hq
      cases h
      exact .dequeue k e q hk hq
    · cases h
      exact hmove _ (by rw [hk]; rfl) rfl
  · rename_i e hk
    cases h
    exact .transmit k e hk
  · rename_i hk
    cases h
    refine hmove _ (by rw [hk]; rfl) ?_
    split <;> rfl
  · rename_i hk
    cases h
    exact .move k .idle _ _ (by rw [hk]; rfl) rfl

/-- **The machine does nothing else.** -/
theorem canbus_step {a : CanbusAct} (hs : s.step .isr a = some t) : CanbusStep s a t := by
  cases a with
  | send k m =>
    obtain ⟨hk, hs⟩ := Option.ite_none_right_eq_some.mp hs
    cases hs
    exact .send k m hk.2.2
  | run k =>
    obtain ⟨_, hs⟩ := Option.ite_none_right_eq_some.mp hs
    exact canbusFlush_step hs
  | irq =>
    obtain ⟨hi, hs⟩ := Option.ite_none_right_eq_some.mp hs
    cases hs
    exact .move .isr .test s.tmeie _ (by rw [hi.2]; rfl) rfl
  | sent i =>
    obtain ⟨hi, hs⟩ := Option.ite_none_right_eq_some.mp hs
    cases hs
    exact .sent i hi

end

/-! ## the ledger -/

/-- the books of a run: nothing is created, and nothing is lost but what was dropped -/
structure Ledger (s : Canbus) : Prop where
  numbered : s.accepted.map Prod.fst = List.range s.accepted.length
  balance : ∀ e, s.cantxq.count e + s.held.count e + s.placed.count e + s.dropped.count e
    = s.accepted.count e

/-- the messages in hand fit into the free mailboxes -/
def Fits (s : Canbus) : Prop := s.held.length + s.boxes.length ≤ 3

section
variable {s t : Canbus}

theorem held_goto (s : Canbus) (k : Flusher) (pc : FlushPc) (p : Entry → Bool) :
    (s.goto k pc).held.countP p + (s.pc k).held.countP p
      = s.held.countP p + pc.held.countP p := by
  unfold TxQueue.held TxQueue.goto
  simp only [List.countP_append]
  cases k <;> simp [Function.update] <;> omega

theorem count_goto (s : Canbus) (k : Flusher) (pc : FlushPc) (e : Entry) :
    (s.goto k pc).held.count e + (s.pc k).held.count e = s.held.count e + pc.held.count e :=
  held_goto s k pc _

theorem length_goto (s : Canbus) (k : Flusher) (pc : FlushPc) :
    (s.goto k pc).held.length + (s.pc k).held.length = s.held.length + pc.held.length := by
  have h := held_goto s k pc fun _ => true
  simpa only [List.countP_true] using h

theorem Ledger.goto (h : Ledger s) {k : Flusher} {pc : FlushPc} (h0 : (s.pc k).held = [])
    (h1 : pc.held = []) : Ledger (s.goto k pc) := by
  refine ⟨h.numbered, fun e => ?_⟩
  have hb := h.balance e
  have hc := count_goto s k pc e
  rw [h0, h1] at hc
  simp only [List.count_nil, Nat.add_zero] at hc
  show s.cantxq.count e + (s.goto k pc).held.count e + s.placed.count e + s.dropped.count e = _
  rw [hc]
  exact hb

theorem Fits.goto (h : Fits s) {k : Flusher} {pc : FlushPc} (h0 : (s.pc k).held = [])
    (h1 : pc.held = []) : Fits (s.goto k pc) := by
  have hl := length_goto s k pc
  rw [h0, h1] at hl
  simp only [List.length_nil, Nat.add_zero] at hl
  show (s.goto k pc).held.length + s.boxes.length ≤ 3
  rw [hl]
  exact h

theorem Ledger.send (h : Ledger s) {k : Flusher} {m : CanMsg} (hk : s.pc k = .idle) :
    Ledger (s.canbusSend k m) := by
  unfold TxQueue.canbusSend
  split
  · refine Ledger.goto ⟨?_, fun e => ?_⟩ (by rw [show _ = FlushPc.idle from hk]; rfl) rfl
    · show (s.accepted ++ [(s.accepted.length, m)]).map Prod.fst = List.range _
      rw [List.map_append, h.numbered, List.length_append, List.length_singleton, List.range_succ]
      rfl
    · have hb := h.balance e
      show (s.cantxq ++ [(s.accepted.length, m)]).count e + s.held.count e + s.placed.count e
        + s.dropped.count e = (s.accepted ++ [(s.accepted.length, m)]).count e
      rw [List.count_append, List.count_append]
      omega
  · exact h

theorem Ledger.dequeue (h : Ledger s) {k : Flusher} {e : Entry} {q : List Entry}
    (hk : s.pc k = .receive) (hq : s.cantxq = e :: q) :
    Ledger ({ s with cantxq := q }.goto k (.transmit e)) := by
  refine ⟨h.numbered, fun e' => ?_⟩
  have hb := h.balance e'
  have hc := count_goto { s with cantxq := q } k (.transmit e) e'
  have h0 : ({ s with cantxq := q } : Canbus).pc k = .receive := hk
  have hheld : ({ s with cantxq := q } : Canbus).held = s.held := rfl
  rw [h0, hheld] at hc
  rw [hq, ← List.singleton_append, List.count_append] at hb
  have h1 : FlushPc.receive.held.count e' = 0 := rfl
  have h2 : (FlushPc.transmit e).held.count e' = [e].count e' := rfl
  rw [h1, h2] at hc
  show q.count e' + (TxQueue.goto _ k (.transmit e)).held.count e' + s.placed.count e'
    + s.dropped.count e' = s.accepted.count e'
  omega

theorem Ledger.transmit (h : Ledger s) {k : Flusher} {e : Entry} (hk : s.pc k = .transmit e) :
    Ledger ((s.canTransmit e).goto k .test) := by
  obtain ⟨hpc, hqueue, -, hacc⟩ := TxQueue.canTransmit_pc s e
  have hheld : (s.canTransmit e).held = s.held := by
    unfold TxQueue.held
    rw [hpc]
  have hout : ∀ e', (s.canTransmit e).placed.count e' + (s.canTransmit e).dropped.count e'
      = s.placed.count e' + s.dropped.count e' + [e].count e' := by
    intro e'
    unfold TxQueue.canTransmit
    split
    · show (s.placed ++ [e]).count e' + s.dropped.count e' = _
      rw [List.count_append]
      omega
    · show s.placed.count e' + (s.dropped ++ [e]).count e' = _
      rw [List.count_append]
      omega
  refine ⟨by rw [show ((s.canTransmit e).goto k .test).accepted = _ from hacc]; exact h.numbered,
    fun e' => ?_⟩
  have hb := h.balance e'
  have ho := hout e'
  have hc := count_goto (s.canTransmit e) k .test e'
  rw [hpc, hk, hheld] at hc
  have h1 : FlushPc.test.held.count e' = 0 := rfl
  have h2 : (FlushPc.transmit e).held.count e' = [e].count e' := rfl
  rw [h1, h2] at hc
  show (s.canTransmit e).cantxq.count e' + (TxQueue.goto _ k .test).held.count e'
    + (s.canTransmit e).placed.count e' + (s.canTransmit e).dropped.count e'
    = (s.canTransmit e).accepted.count e'
  rw [hacc, hqueue]
  omega

/-- **Every step keeps the books.** -/
theorem ledger_step {a : CanbusAct} (h : Ledger s) (hs : s.step .isr a = some t) : Ledger t := by
  cases canbus_step hs with
  | send k m hk => exact h.send hk
  | move k pc tmeie a h0 h1 =>
    have h' : Ledger { s with tmeie := tmeie } := ⟨h.numbered, h.balance⟩
    exact h'.goto h0 h1
  | dequeue k e q hk hq => exact h.dequeue hk hq
  | transmit k e hk => exact h.transmit hk
  | sent i hi => exact ⟨h.numbered, h.balance⟩

/-! ## room -/

theorem Fits.send (h : Fits s) {k : Flusher} {m : CanMsg} (hk : s.pc k = .idle) :
    Fits (s.canbusSend k m) := by
  unfold TxQueue.canbusSend
  split
  · exact Fits.goto h (by rw [show _ = FlushPc.idle from hk]; rfl) rfl
  · exact h

theorem Fits.dequeue {k : Flusher} {e : Entry} {q : List Entry} (hk : s.pc k = .receive)
    (hroom : s.held.length + s.boxes.length < 3) :
    Fits ({ s with cantxq := q }.goto k (.transmit e)) := by
  have hl := length_goto { s with cantxq := q } k (.transmit e)
  have h0 : ({ s with cantxq := q } : Canbus).pc k = .receive := hk
  have hheld : ({ s with cantxq := q } : Canbus).held = s.held := rfl
  rw [h0, hheld] at hl
  have h1 : FlushPc.receive.held.length = 0 := rfl
  have h2 : (FlushPc.transmit e).held.length = 1 := rfl
  show (TxQueue.goto _ k (.transmit e)).held.length + s.boxes.length ≤ 3
  omega

/-- with room for what is in hand, `can_transmit` finds a mailbox -/
theorem Fits.transmit (h : Fits s) {k : Flusher} {e : Entry} (hk : s.pc k = .transmit e) :
    Fits ((s.canTransmit e).goto k .test) ∧ (s.canTransmit e).dropped = s.dropped := by
  have hl := length_goto s k .test
  rw [hk] at hl
  have h1 : FlushPc.test.held.length = 0 := rfl
  have h2 : (FlushPc.transmit e).held.length = 1 := rfl
  have hroom : s.held.length + s.boxes.length ≤ 3 := h
  have hfree : s.canAvailableMailbox = true := by
    show decide (s.boxes.length < 3) = true
    exact decide_eq_true (by omega)
  have ht : s.canTransmit e = { s with boxes := s.boxes ++ [e], placed := s.placed ++ [e] } :=
    if_pos hfree
  rw [ht]
  refine ⟨?_, rfl⟩
  show (s.goto k .test).held.length + (s.boxes ++ [e]).length ≤ 3
  rw [List.length_append, List.length_singleton]
  omega

/-- what a run with room keeps -/
structure Roomed (s : Canbus) : Prop where
  ledger : Ledger s
  fits : Fits s
  dropped : s.dropped = []

theorem roomed_step {a : CanbusAct} (h : Roomed s) (hg : Roomy s a) (hs : s.step .isr a = some t) :
    Roomed t := by
  have hledger := ledger_step h.ledger hs
  suffices hrest : Fits t ∧ t.dropped = [] from ⟨hledger, hrest.1, hrest.2⟩
  cases canbus_step hs with
  | send k m hk =>
    refine ⟨h.fits.send hk, ?_⟩
    unfold TxQueue.canbusSend
    split <;> exact h.dropped
  | move k pc tmeie a h0 h1 =>
    have h' : Fits { s with tmeie := tmeie } := h.fits
    exact ⟨h'.goto h0 h1, h.dropped⟩
  | dequeue k e q hk hq => exact ⟨Fits.dequeue hk (hg hk (by rw [hq]; simp)), h.dropped⟩
  | transmit k e hk =>
    obtain ⟨h1, h2⟩ := h.fits.transmit hk
    exact ⟨h1, h2.trans h.dropped⟩
  | sent i hi =>
    refine ⟨?_, h.dropped⟩
    have hroom : s.held.length + s.boxes.length ≤ 3 := h.fits
    show s.held.length + (s.boxes.eraseIdx i).length ≤ 3
    rw [List.length_eraseIdx_of_lt hi]
    omega

theorem Ledger.nodup (h : Ledger s) : s.accepted.Nodup := by
  have hn : (s.accepted.map Prod.fst).Nodup := by
    rw [h.numbered]
    exact List.nodup_range
  exact hn.of_map _

theorem Roomed.safe (h : Roomed s) : s.Safe := by
  refine ⟨h.dropped, fun e he => ?_⟩
  have hb := h.ledger.balance e
  rw [h.dropped, List.count_nil, List.count_eq_one_of_mem h.ledger.nodup he] at hb
  rw [List.count_append, List.count_append]
  omega

end

theorem init_roomed : Roomed TxQueue.init := ⟨⟨rfl, fun _ => rfl⟩, Nat.zero_le _, rfl⟩

/-- **No accepted message is lost** in a run in which each dequeue finds a mailbox free for every
message in hand and one more. -/
theorem no_message_lost {s : Canbus} (h : canbus.Reach Roomy TxQueue.init s) : s.Safe :=
  (h.inv init_roomed fun _ _ _ hi hg hs => roomed_step hi hg hs).safe

/-- a call of `canbus_send` and `n` steps of its flush, undisturbed -/
def sendAlone (k : Flusher) (n : Nat) : List CanbusAct := .send k .zero :: List.replicate n (.run k)

/-- four messages; the last waits until the interrupt finds a mailbox -/
def fourMessages : List CanbusAct :=
  List.flatten [sendAlone .canrx 6, sendAlone .cancon 6, sendAlone .canrx 5, sendAlone .cancon 3,
    [.sent 1, .irq], List.replicate 5 (.run .isr)]

/-- with one mailbox left, both tasks test it before either uses it -/
def overlap : List CanbusAct :=
  List.flatten [sendAlone .canrx 6, sendAlone .canrx 6,
    [.send .canrx .zero, .run .canrx, .send .cancon .zero, .run .cancon, .run .canrx,
      .run .cancon, .run .canrx, .run .cancon]]

theorem no_message_lost_four : ∃ s, canbus.run TxQueue.init fourMessages = some s ∧
    s.placed.length = 4 ∧ s.Safe := by
  have hrun : (canbus.run TxQueue.init fourMessages).map (fun s => s.placed.length) = some 4 := by
    decide
  obtain ⟨s, hs, hplaced⟩ := Option.map_eq_some_iff.mp hrun
  have hguard : canbus.Along Roomy TxQueue.init fourMessages := by decide
  exact ⟨s, hs, hplaced, no_message_lost (Machine.run_reach hguard hs)⟩

theorem no_message_lost_fails :
    ¬ ∀ s : Canbus, canbus.Reach Machine.Free TxQueue.init s → s.Safe := by
  intro hall
  have hrun : (canbus.run TxQueue.init overlap).map (fun s => s.dropped.length) = some 1 := by decide
  obtain ⟨s, hs, hdropped⟩ := Option.map_eq_some_iff.mp hrun
  rw [(hall s (Machine.run_free hs)).dropped] at hdropped
  cases hdropped

end Bramble
