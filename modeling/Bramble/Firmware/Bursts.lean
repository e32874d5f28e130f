import Bramble.Firmware.ConsoleTask
import Bramble.Firmware.RxTask

/-!
# The bursts of the console task

* `TaskOk`            where the task is in a burst; `TaskStep.inBurst` and `TaskOk.sent` keep it;
* `oneConnection`     the machine: one connection, any messages that leave it alone, any serial
                      data, any failures of `canbus_send`;
* `bursts_iff`        the bytes are conserved and the bursts well formed iff no send fails;
* `bursts_fail`       a send that fails loses bytes.
-/

namespace Bramble

/-! ## inside a burst -/

/-- The console task inside a burst of which `n` messages have been sent, `ended` by `eot`. -/
def TaskOk (fw : Fw) (n : Nat) (ended : Bool) : Prop :=
  match fw.task.pc with
  | .recv => ended = false ∧ fw.task.seq = n
  | .got d => ended = false ∧ fw.task.seq = n ∧ 0 < d.bytes.length
  | .addressed d a =>
    ended = false ∧ fw.task.seq = n ∧ 0 < d.bytes.length ∧ a = fw.console.dstaddr
  | .named d a o =>
    ended = false ∧ fw.task.seq = n ∧ 0 < d.bytes.length ∧ a = fw.console.dstaddr ∧
      o = fw.console.object
  | .built m =>
    ended = false ∧ fw.task.seq = n + 1 ∧ m.seq.val = n ∧ 0 < m.dlen ∧ (m.eot = false → n < 15) ∧
      m.dst = fw.console.dstaddr ∧ m.src = fw.srcaddr ∧ m.type = .dat ∧
      m.object = fw.console.object
  | .wait => ended = true

/-- reading, addressing and building a message keeps the task in the burst -/
theorem TaskStep.inBurst {fw fw' : Fw} {ev : TaskEv} {e : TaskEff} (h : TaskStep fw ev fw' e)
    {n : Nat} {ended : Bool} (ht : TaskOk fw n ended) (hw : fw.task.pc ≠ .wait)
    (hm : ∀ m, fw.task.pc ≠ .built m) (hn : n ≤ 15) : TaskOk fw' n ended := by
  unfold TaskOk at ht
  cases h with
  | recv hpc =>
    rw [hpc] at ht
    unfold TaskOk
    by_cases hq : fw.serial.rxq = []
    · simp only [hq, if_true]
      exact ht
    · simp only [hq, if_false, Payload.ofList_bytes, List.length_take]
      have := List.length_pos_iff.mpr hq
      exact ⟨ht.1, ht.2, by omega⟩
  | addr d hpc =>
    rw [hpc] at ht
    exact ⟨ht.1, ht.2.1, ht.2.2, rfl⟩
  | object d a hpc =>
    rw [hpc] at ht
    exact ⟨ht.1, ht.2.1, ht.2.2.1, ht.2.2.2, rfl⟩
  | build d a o hpc =>
    rw [hpc] at ht
    obtain ⟨h1, h2, h3, h4, h5⟩ := ht
    have hseq : (fw.datMsg d a o).seq.val = n := by
      show fw.task.seq % 16 = n
      rw [h2, Nat.mod_eq_of_lt (by omega)]
    have heot : (fw.datMsg d a o).eot = false → n < 15 := by
      intro he
      have h15 : ¬ fw.task.seq = 15 := by
        intro e
        simp [Fw.datMsg, e] at he
      omega
    exact ⟨h1, by rw [h2], hseq, h3, heot, h4, rfl, rfl, h5⟩
  | send m hpc => exact absurd hpc (hm m)
  | fail m hpc => exact absurd hpc (hm m)
  | notified hpc _ => exact absurd hpc hw
  | expired hpc _ => exact absurd hpc hw

theorem TaskStep.notify_eq {fw fw' : Fw} {ev : TaskEv} {e : TaskEff} (h : TaskStep fw ev fw' e)
    (hw : fw.task.pc ≠ .wait) : fw'.task.notify = fw.task.notify := by
  cases h with
  | notified hpc => exact absurd hpc hw
  | expired hpc => exact absurd hpc hw
  | _ => rfl

theorem TaskOk.sent {fw : Fw} {n : Nat} {ended : Bool} (h : TaskOk fw n ended) {m : CanMsg}
    (hpc : fw.task.pc = .built m) :
    TaskOk (fw.goto (if m.eot then .wait else .recv)) (n + 1) m.eot := by
  unfold TaskOk at h
  rw [hpc] at h
  obtain ⟨_, hseq, _⟩ := h
  cases hm : m.eot with
  | true => rfl
  | false => exact ⟨rfl, hseq⟩

/-- `TaskOk` looks at the connection and at the program point only -/
theorem TaskOk.congr {fw fw' : Fw} {n : Nat} {ended : Bool} (h : TaskOk fw n ended)
    (hc : fw'.console = fw.console) (ha : fw'.srcaddr = fw.srcaddr)
    (hpc : fw'.task.pc = fw.task.pc) (hseq : fw'.task.seq = fw.task.seq) : TaskOk fw' n ended := by
  unfold TaskOk at h ⊢
  rw [hc, ha, hpc, hseq]
  exact h

/-! ## the bytes in hand -/

/-- between `serial_recv` and `send_msg` there are bytes in hand -/
def HandOk (pc : TaskPc) : Prop := pc = .recv ∨ pc = .wait ∨ pc.inHand ≠ []

theorem TaskOk.handOk {fw : Fw} {n : Nat} {ended : Bool} (h : TaskOk fw n ended) :
    HandOk fw.task.pc := by
  unfold TaskOk at h
  cases hpc : fw.task.pc <;> rw [hpc] at h
  case recv => exact .inl rfl
  case wait => exact .inr (.inl rfl)
  case built m => exact .inr (.inr (List.length_pos_iff.mp h.2.2.2.1))
  case got d => exact .inr (.inr (List.length_pos_iff.mp h.2.2))
  case addressed d a => exact .inr (.inr (List.length_pos_iff.mp h.2.2.1))
  case named d a o => exact .inr (.inr (List.length_pos_iff.mp h.2.2.1))

/-- What a step of the task does to the bytes in hand. -/
inductive Hand (ev : TaskEv) (pc pc' : TaskPc) : TaskEff → Prop
  | took (bs : List UInt8) (h : pc.inHand = []) (h' : pc'.inHand = bs) : Hand ev pc pc' (.took bs)
  | sent (m : CanMsg) (h : pc.inHand = m.data.bytes) (h' : pc'.inHand = []) :
      Hand ev pc pc' (.sent m)
  | keep (he : ev ≠ .sendFail) (h : pc'.inHand = pc.inHand) : Hand ev pc pc' .quiet
  | drop (he : ev = .sendFail) (h : pc.inHand ≠ []) (h' : pc'.inHand = []) : Hand ev pc pc' .quiet

theorem TaskStep.hand {fw fw' : Fw} {ev : TaskEv} {e : TaskEff} (h : TaskStep fw ev fw' e)
    (ho : HandOk fw.task.pc) : HandOk fw'.task.pc ∧ Hand ev fw.task.pc fw'.task.pc e := by
  have hin : ∀ {pc : TaskPc}, fw.task.pc = pc → pc ≠ .recv → pc ≠ .wait → pc.inHand ≠ [] := by
    rintro pc rfl h1 h2
    exact (ho.resolve_left h1).resolve_left h2
  cases h with
  | recv hpc =>
    by_cases hq : fw.serial.rxq = []
    · simp only [hq, if_true]
      exact ⟨.inl rfl, .took _ (by rw [hpc]; rfl) rfl⟩
    · simp only [hq, if_false]
      refine ⟨.inr (.inr ?_), .took _ (by rw [hpc]; rfl) rfl⟩
      show fw.serial.rxq.take 8 ≠ []
      simp [hq]
  | addr d hpc =>
    have h0 := hin hpc (by simp) (by simp)
    exact ⟨.inr (.inr h0), .keep (by simp) (by rw [hpc]; rfl)⟩
  | object d a hpc =>
    have h0 := hin hpc (by simp) (by simp)
    exact ⟨.inr (.inr h0), .keep (by simp) (by rw [hpc]; rfl)⟩
  | build d a o hpc =>
    have h0 := hin hpc (by simp) (by simp)
    exact ⟨.inr (.inr h0), .keep (by simp) (by rw [hpc]; rfl)⟩
  | send m hpc =>
    have hpc' : (fw.goto (if m.eot then .wait else .recv)).task.pc
        = if m.eot then .wait else .recv := rfl
    rw [hpc', hpc]
    cases m.eot with
    | true => exact ⟨.inr (.inl rfl), .sent m rfl rfl⟩
    | false => exact ⟨.inl rfl, .sent m rfl rfl⟩
  | fail m hpc =>
    refine ⟨.inl rfl, .drop rfl ?_ rfl⟩
    rw [hpc]
    exact hin hpc (by simp) (by simp)
  | notified hpc _ => exact ⟨.inl rfl, .keep (by simp) (by rw [hpc]; rfl)⟩
  | expired hpc _ => exact ⟨.inl rfl, .keep (by simp) (by rw [hpc]; rfl)⟩

/-! ## one connection -/

/-- One connection: `bursts` are the messages accepted by `canbus_send` up to each ACK wait that
has ended, `cur` those accepted since. -/
structure Sending where
  fw : Fw
  taken : List UInt8
  bursts : List (List CanMsg)
  cur : List CanMsg

namespace Sending

def accepted (s : Sending) : List CanMsg := s.bursts.flatten ++ s.cur

def afterTask (s : Sending) (fw : Fw) : TaskEff → Sending
  | .took bs => { s with fw := fw, taken := s.taken ++ bs }
  | .sent m => { s with fw := fw, cur := s.cur ++ [m] }
  | .quiet =>
    if s.fw.task.pc = .wait then { s with fw := fw, bursts := s.bursts ++ [s.cur], cur := [] }
    else { s with fw := fw }

/-- no message that connects or disconnects is received -/
def step (s : Sending) : NodeAct → Option Sending
  | .uart c => some { s with fw := { s.fw with serial := s.fw.serial.usart1IsrRx c } }
  | .usartTx => some { s with fw := { s.fw with serial := s.fw.serial.usart1IsrTx.1 } }
  | .can m =>
    if m.isConn ∨ s.fw.acceptsDisc m then none
    else some { s with fw := (canservicesRxTask s.fw m).1 }
  | .task ev => (consoleTask s.fw ev).map fun r => s.afterTask r.1 r.2

structure Start (s : Sending) : Prop where
  connected : s.fw.console.connected = true
  awake : s.fw.task.suspended = false
  pc : s.fw.task.pc = .recv
  seq : s.fw.task.seq = 0
  taken : s.taken = []
  bursts : s.bursts = []
  cur : s.cur = []

end Sending

def oneConnection : Machine Sending NodeAct := ⟨Sending.step⟩

def carried (l : List CanMsg) : List UInt8 := l.flatMap fun m => m.data.bytes

theorem carried_append (l l' : List CanMsg) : carried (l ++ l') = carried l ++ carried l' :=
  List.flatMap_append

theorem carried_single (m : CanMsg) : carried [m] = m.data.bytes := List.flatMap_singleton ..

/-- Every byte taken from `serialrxq` is in one accepted message, in order, or still in hand. -/
def Conserved (s : Sending) : Prop :=
  s.taken = carried s.accepted ++ s.fw.task.pc.inHand

/-- the messages of a whole burst -/
structure Whole (b : List CanMsg) : Prop where
  short : b.length ≤ 16
  numbered : NumberedFrom0 b
  eot : ∃ init last, b = init ++ [last] ∧ last.eot = true ∧ ∀ m ∈ init, m.eot = false

/-- the messages of a burst that goes on -/
structure Partial (b : List CanMsg) : Prop where
  short : b.length ≤ 15
  numbered : NumberedFrom0 b
  eot : ∀ m ∈ b, m.eot = false

structure Shaped (s : Sending) : Prop where
  bursts : ∀ b ∈ s.bursts, Whole b
  waiting : s.fw.task.pc = .wait → Whole s.cur
  going : s.fw.task.pc ≠ .wait → Partial s.cur

/-! ## no send fails -/

structure Orderly (s : Sending) : Prop where
  task : TaskOk s.fw s.cur.length (decide (s.fw.task.pc = .wait))
  bytes : Conserved s
  shape : Shaped s

section
variable {s t : Sending}

theorem Orderly.of_fw (h : Orderly s) {fw : Fw} (hc : fw.console = s.fw.console)
    (ha : fw.srcaddr = s.fw.srcaddr) (hpc : fw.task.pc = s.fw.task.pc)
    (hseq : fw.task.seq = s.fw.task.seq) : Orderly { s with fw := fw } := by
  refine ⟨?_, ?_, ⟨h.shape.bursts, ?_, ?_⟩⟩
  · show TaskOk fw s.cur.length (decide (fw.task.pc = .wait))
    rw [hpc]
    exact h.task.congr hc ha hpc hseq
  · show s.taken = _ ++ fw.task.pc.inHand
    rw [hpc]
    exact h.bytes
  · exact fun hw => h.shape.waiting (hpc.symm.trans hw)
  · exact fun hw => h.shape.going fun hw' => hw (hpc.trans hw')

theorem Orderly.send (h : Orderly s) {m : CanMsg} (hpc : s.fw.task.pc = .built m) :
    Orderly (s.afterTask (s.fw.goto (if m.eot then .wait else .recv)) (.sent m)) := by
  have hw : s.fw.task.pc ≠ .wait := by simp [hpc]
  obtain ⟨hshort, hnum, heot⟩ := h.shape.going hw
  have ht := h.task
  have ht' := ht.sent hpc
  unfold TaskOk at ht
  rw [hpc] at ht
  obtain ⟨_, _, hseq, _, hlt, _⟩ := ht
  have hnum' : NumberedFrom0 (s.cur ++ [m]) := hnum.snoc hseq
  have hlen : (s.cur ++ [m]).length = s.cur.length + 1 := by simp
  have hpc' : (s.fw.goto (if m.eot then .wait else .recv)).task.pc
      = if m.eot then .wait else .recv := rfl
  have hend : decide ((if m.eot then TaskPc.wait else .recv) = .wait) = m.eot := by
    cases m.eot <;> rfl
  have hb := h.bytes
  unfold Conserved Sending.accepted at hb
  rw [hpc] at hb
  refine ⟨?_, ?_, ⟨h.shape.bursts, ?_, ?_⟩⟩
  · show TaskOk _ (s.cur ++ [m]).length (decide ((if m.eot then TaskPc.wait else .recv) = .wait))
    rw [hend, hlen]
    exact ht'
  · show s.taken = carried (s.bursts.flatten ++ (s.cur ++ [m]))
      ++ (if m.eot then TaskPc.wait else .recv).inHand
    have hhand : (if m.eot then TaskPc.wait else .recv).inHand = [] := by
      cases m.eot <;> rfl
    rw [hhand, List.append_nil, hb, ← List.append_assoc, carried_append _ [m], carried_single]
    rfl
  · intro hwait
    refine ⟨?_, hnum', s.cur, m, rfl, ?_, heot⟩
    · show (s.cur ++ [m]).length ≤ 16
      omega
    · rw [← hend]
      exact decide_eq_true hwait
  · intro hgo
    have hme : m.eot = false := by
      rw [← hend]
      exact decide_eq_false hgo
    refine ⟨?_, hnum', ?_⟩
    · show (s.cur ++ [m]).length ≤ 15
      have := hlt hme
      omega
    · intro m' hm'
      rcases List.mem_append.mp hm' with hm' | hm'
      · exact heot m' hm'
      · rw [List.mem_singleton.mp hm', hme]

theorem Orderly.endWait (h : Orderly s) (hpc : s.fw.task.pc = .wait) :
    Orderly (s.afterTask s.fw.endWait .quiet) := by
  have ht : s.afterTask s.fw.endWait .quiet
      = { s with fw := s.fw.endWait, bursts := s.bursts ++ [s.cur], cur := [] } := if_pos hpc
  have hb := h.bytes
  unfold Conserved Sending.accepted at hb
  rw [hpc] at hb
  rw [ht]
  refine ⟨⟨rfl, rfl⟩, ?_, ⟨?_, fun hw => ?_, fun _ => ⟨Nat.zero_le _, rfl, ?_⟩⟩⟩
  · show s.taken = carried ((s.bursts ++ [s.cur]).flatten ++ []) ++ []
    simp only [List.flatten_append, List.flatten_singleton, List.append_nil]
    exact hb.trans (List.append_nil _)
  · intro b hb
    rcases List.mem_append.mp hb with hb | hb
    · exact h.shape.bursts b hb
    · rw [List.mem_singleton.mp hb]
      exact h.shape.waiting hpc
  · cases hw
  · intro m hm
    cases hm

theorem Orderly.task_step (h : Orderly s) {ev : TaskEv} {fw : Fw} {e : TaskEff}
    (hev : ev ≠ .sendFail) (hs : TaskStep s.fw ev fw e) : Orderly (s.afterTask fw e) := by
  have hin : s.fw.task.pc ≠ .wait → (∀ m, s.fw.task.pc ≠ .built m) → fw.task.pc ≠ .wait →
      Orderly (s.afterTask fw e) := by
    intro hw hm hw'
    have hshape := h.shape.going hw
    have hended : decide (fw.task.pc = .wait) = decide (s.fw.task.pc = .wait) := by
      rw [decide_eq_false hw, decide_eq_false hw']
    have htask : TaskOk fw s.cur.length (decide (fw.task.pc = .wait)) := by
      rw [hended]
      exact hs.inBurst h.task hw hm hshape.short
    have hb := h.bytes
    unfold Conserved Sending.accepted at hb
    cases (hs.hand h.task.handOk).2 with
    | took bs h0 h1 =>
      refine ⟨htask, ?_, ⟨h.shape.bursts, fun h' => absurd h' hw', fun _ => hshape⟩⟩
      show s.taken ++ bs = carried s.accepted ++ fw.task.pc.inHand
      rw [h0, List.append_nil] at hb
      rw [hb, h1]
      rfl
    | sent m _ _ =>
      cases hs with
      | send _ hpc => exact absurd hpc (hm m)
    | keep _ h1 =>
      rw [show s.afterTask fw .quiet = { s with fw := fw } from if_neg hw]
      refine ⟨htask, ?_, ⟨h.shape.bursts, fun h' => absurd h' hw', fun _ => hshape⟩⟩
      show s.taken = carried s.accepted ++ fw.task.pc.inHand
      rw [h1]
      exact hb
    | drop he _ _ => exact absurd he hev
  cases hs with
  | recv hpc =>
    refine hin (by simp [hpc]) (by simp [hpc]) ?_
    show (if s.fw.serial.rxq = [] then TaskPc.recv else .got _) ≠ .wait
    split <;> simp
  | addr d hpc => exact hin (by simp [hpc]) (by simp [hpc]) (by simp [Fw.goto])
  | object d a hpc => exact hin (by simp [hpc]) (by simp [hpc]) (by simp [Fw.goto])
  | build d a o hpc => exact hin (by simp [hpc]) (by simp [hpc]) (by simp)
  | send m hpc => exact h.send hpc
  | fail m hpc => exact absurd rfl hev
  | notified hpc _ => exact h.endWait hpc
  | expired hpc _ => exact h.endWait hpc

theorem receive_same {m : CanMsg} (h : ¬ (m.isConn ∨ s.fw.acceptsDisc m)) :
    (canservicesRxTask s.fw m).1.console = s.fw.console := by
  rw [not_or] at h
  have hrx := canservicesRxTask_step s.fw m
  generalize canservicesRxTask s.fw m = r at hrx
  obtain ⟨fw', es⟩ := r
  cases hrx with
  | conn o es hc => exact absurd hc h.1
  | disc es hd => exact absurd hd h.2
  | recv => rfl
  | give => rfl
  | other => rfl

theorem orderly_step {a : NodeAct} (h : Orderly s) (ha : a ≠ .task .sendFail)
    (hs : s.step a = some t) : Orderly t := by
  cases a with
  | uart c =>
    cases hs
    exact h.of_fw rfl rfl rfl rfl
  | usartTx =>
    cases hs
    exact h.of_fw rfl rfl rfl rfl
  | can m =>
    have hs' : (if m.isConn ∨ s.fw.acceptsDisc m then none
      else some { s with fw := (canservicesRxTask s.fw m).1 }) = some t := hs
    split at hs'
    · cases hs'
    · rename_i hm
      cases hs'
      obtain ⟨hpc, hseq, hsrc⟩ := (canservicesRxTask_step s.fw m).pc
      exact h.of_fw (receive_same hm) hsrc hpc hseq
  | task ev =>
    obtain ⟨⟨fw, e⟩, hstep, rfl⟩ := Option.map_eq_some_iff.mp hs
    exact h.task_step (fun hev => ha (by rw [hev])) (consoleTask_step hstep).2

theorem Sending.Start.orderly (h : s.Start) : Orderly s := by
  have hw : s.fw.task.pc ≠ .wait := by
    rw [h.pc]
    simp
  refine ⟨?_, ?_, ⟨?_, fun h' => absurd h' hw, fun _ => ?_⟩⟩
  · unfold TaskOk
    rw [h.pc, h.cur]
    exact ⟨rfl, h.seq⟩
  · unfold Conserved Sending.accepted
    rw [h.taken, h.bursts, h.cur, h.pc]
    rfl
  · rw [h.bursts]
    intro b hb
    cases hb
  · rw [h.cur]
    exact ⟨Nat.zero_le _, rfl, fun m hm => absurd hm List.not_mem_nil⟩

/-! ## a send fails -/

/-- at least `n` bytes have been lost -/
structure Lost (s : Sending) (n : Nat) : Prop where
  hand : HandOk s.fw.task.pc
  bytes : (carried s.accepted).length + s.fw.task.pc.inHand.length + n ≤ s.taken.length

theorem Lost.of_fw {n : Nat} (h : Lost s n) {fw : Fw} (hpc : fw.task.pc = s.fw.task.pc) :
    Lost { s with fw := fw } n := by
  refine ⟨?_, ?_⟩
  · show HandOk fw.task.pc
    rw [hpc]
    exact h.hand
  · show (carried s.accepted).length + fw.task.pc.inHand.length + n ≤ s.taken.length
    rw [hpc]
    exact h.bytes

theorem accepted_quiet (s : Sending) (fw : Fw) :
    (s.afterTask fw .quiet).accepted = s.accepted ∧ (s.afterTask fw .quiet).taken = s.taken ∧
      (s.afterTask fw .quiet).fw = fw := by
  unfold Sending.afterTask Sending.accepted
  by_cases hw : s.fw.task.pc = .wait <;> simp [hw]

theorem Lost.task_step {n : Nat} (h : Lost s n) {ev : TaskEv} {fw : Fw} {e : TaskEff}
    (hs : TaskStep s.fw ev fw e) :
    Lost (s.afterTask fw e) (n + if ev = .sendFail then 1 else 0) := by
  obtain ⟨ho, hhand⟩ := hs.hand h.hand
  have hb := h.bytes
  have hno : ∀ m, e = .sent m → ev ≠ .sendFail := by
    rintro m rfl
    cases hs
    simp
  have hno' : ∀ bs, e = .took bs → ev ≠ .sendFail := by
    rintro bs rfl
    cases hs
    simp
  cases hhand with
  | took bs h0 h1 =>
    rw [if_neg (hno' bs rfl)]
    refine ⟨ho, ?_⟩
    show (carried s.accepted).length + fw.task.pc.inHand.length + n ≤ (s.taken ++ bs).length
    rw [h0] at hb
    rw [h1, List.length_append]
    simp only [List.length_nil] at hb
    omega
  | sent m h0 h1 =>
    rw [if_neg (hno m rfl)]
    refine ⟨ho, ?_⟩
    show (carried (s.bursts.flatten ++ (s.cur ++ [m]))).length + fw.task.pc.inHand.length + n
      ≤ s.taken.length
    unfold Sending.accepted at hb
    rw [h0] at hb
    rw [h1, ← List.append_assoc, carried_append _ [m], carried_single, List.length_append]
    simp only [List.length_nil]
    omega
  | keep he h1 =>
    obtain ⟨ha, ht, hfw⟩ := accepted_quiet s fw
    rw [if_neg he]
    refine ⟨by rw [hfw]; exact ho, ?_⟩
    rw [ha, ht, hfw, h1]
    exact hb
  | drop he h0 h1 =>
    obtain ⟨ha, ht, hfw⟩ := accepted_quiet s fw
    have hpos := List.length_pos_iff.mpr h0
    rw [if_pos he]
    refine ⟨by rw [hfw]; exact ho, ?_⟩
    rw [ha, ht, hfw, h1]
    simp only [List.length_nil]
    omega

theorem lost_step {n : Nat} {a : NodeAct} (h : Lost s n) (hs : s.step a = some t) :
    Lost t (n + if a = .task .sendFail then 1 else 0) := by
  cases a with
  | uart c =>
    cases hs
    exact h.of_fw rfl
  | usartTx =>
    cases hs
    exact h.of_fw rfl
  | can m =>
    have hs' : (if m.isConn ∨ s.fw.acceptsDisc m then none
      else some { s with fw := (canservicesRxTask s.fw m).1 }) = some t := hs
    split at hs'
    · cases hs'
    · cases hs'
      exact h.of_fw (canservicesRxTask_step s.fw m).pc.1
  | task ev =>
    obtain ⟨⟨fw, e⟩, hstep, rfl⟩ := Option.map_eq_some_iff.mp hs
    have := h.task_step (consoleTask_step hstep).2
    simpa using this

theorem lost_run {as : List NodeAct} (h0 : s.Start) (h : oneConnection.run s as = some t) :
    Lost t (as.count (.task .sendFail)) := by
  induction as using List.reverseRecOn generalizing t with
  | nil =>
    cases h
    refine ⟨.inl h0.pc, ?_⟩
    rw [Sending.accepted, h0.bursts, h0.cur, h0.pc]
    exact Nat.zero_le _
  | append_singleton as a ih =>
    obtain ⟨u, hu, hstep⟩ := (oneConnection.run_snoc).mp h
    have := lost_step (ih hu) hstep
    rw [List.count_append, List.count_singleton]
    simpa using this

end

/-- **The bytes are conserved and the bursts well formed iff no send fails.** -/
theorem bursts_iff {s t : Sending} {as : List NodeAct} (h0 : s.Start)
    (h : oneConnection.run s as = some t) : Conserved t ∧ Shaped t ↔ .task .sendFail ∉ as := by
  constructor
  · rintro ⟨hc, _⟩ hmem
    have hlost := (lost_run h0 h).bytes
    have hcount := List.count_pos_iff.mpr hmem
    have hlen : t.taken.length = (carried t.accepted).length + t.fw.task.pc.inHand.length := by
      rw [hc, List.length_append]
    omega
  · intro hno
    have hguard : oneConnection.Along (fun _ a => a ≠ .task .sendFail) s as :=
      Machine.Along.of_actions (fun _ _ ha => ha) s fun a ha he => hno (he ▸ ha)
    have hinv : Orderly t :=
      (Machine.run_reach hguard h).inv h0.orderly fun _ _ _ hi hg hs => orderly_step hi hg hs
    exact ⟨hinv.bytes, hinv.shape⟩

/-- a node connected to the node `b` -/
def Sending.connected (a b : Addr) : Sending :=
  ⟨(Fw.init a).connected b objConsolesend, [], [], []⟩

/-- two bursts, of two messages and of one -/
def twoGoodBursts : List NodeAct :=
  List.flatten [List.replicate 9 (.uart 65), List.replicate 10 (.task .run), [.task .timeout,
    .uart 66], List.replicate 5 (.task .run)]

/-- `cantxq` is full when the only message of a burst is sent -/
def fullQueue : List NodeAct :=
  List.flatten [[.uart 65], List.replicate 4 (.task .run), [.task .sendFail]]

theorem bursts_two : ∃ t, oneConnection.run (Sending.connected 16 32) twoGoodBursts = some t ∧
    t.taken.length = 10 ∧ (Conserved t ∧ Shaped t) := by
  have hrun : (oneConnection.run (Sending.connected 16 32) twoGoodBursts).map
      (fun t => t.taken.length) = some 10 := by decide
  obtain ⟨t, ht, hlen⟩ := Option.map_eq_some_iff.mp hrun
  have h0 : (Sending.connected 16 32).Start := by constructor <;> rfl
  exact ⟨t, ht, hlen, (bursts_iff h0 ht).mpr (by decide)⟩

theorem bursts_fail : ¬ ∀ (s t : Sending) (as : List NodeAct), s.Start →
    oneConnection.run s as = some t → Conserved t ∧ Shaped t := by
  intro hall
  have hrun : (oneConnection.run (Sending.connected 16 32) fullQueue).map (fun t =>
      t.taken == carried t.accepted ++ t.fw.task.pc.inHand) = some false := by decide
  obtain ⟨t, ht, hlost⟩ := Option.map_eq_some_iff.mp hrun
  have h0 : (Sending.connected 16 32).Start := by constructor <;> rfl
  have hc := (hall _ t fullQueue h0 ht).1
  have hcons : (t.taken == carried t.accepted ++ t.fw.task.pc.inHand) = true := beq_iff_eq.mpr hc
  exact absurd (hlost.symm.trans hcons) Bool.false_ne_true

end Bramble
