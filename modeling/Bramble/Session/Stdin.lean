import Bramble.Helper.Stdin
import Bramble.Firmware.Peer
import Bramble.Session.Replies

/-!
# The stdin-to-serial stream: one helper, the bus and the firmware

The helper sends one DAT message of at most 8 bytes and waits for its ACK. The bus hands over any
message in flight at any time and may lose it, but duplicates none; the helper may die in any state.

* `stdinSession`          the machine, from `console_connect` on;
* `Fw.accepted`           the bytes that a message puts into `serialtxq`;
* `token`                 a watcher that is active, a request or its answer: at most one of them;
* `Faithful`              the invariant: what has been read and accepted, by where the token is;
* `stdin_prefix`          the bytes accepted are a prefix of the bytes read.
-/

namespace Bramble

/-! ## the machine -/

structure StdinSession where
  fw : Fw
  conman : Conman
  toHelper : List CanMsg
  toFw : List CanMsg
  /-- what the calls of `read` returned -/
  read : List UInt8
  /-- what `serial_send` accepted -/
  accepted : List UInt8
  /-- DAT messages of the helper -/
  sent : List CanMsg
  /-- number of their ACKs that the helper received -/
  acked : Nat

inductive StdinAct where
  /-- stdin is readable; `sendOk` says that `can_send` works -/
  | stdin (r : ReadResult) (sendOk : Bool)
  | timeout
  | recvTimeout (sendOk : Bool)
  /-- any other error of the helper -/
  | die (text : String)
  /-- the `i`-th message in flight reaches the helper -/
  | toHelper (i : Nat) (sendOk : Bool)
  | toFw (i : Nat)
  | loseToHelper (i : Nat)
  | loseToFw (i : Nat)
  /-- `usart1_isr`, and the console task -/
  | uart (c : UInt8)
  | usartTx
  | task (ev : TaskEv)

def ReadResult.data : ReadResult → List UInt8
  | .bytes data => data.bytes
  | _ => []

/-- the bytes that a message puts into `serialtxq` -/
def Fw.accepted (fw : Fw) (es : List Eff) : List UInt8 :=
  es.flatMap fun e => match e with
    | .serialSend bs => bs.take (fw.serial.serialSend bs).2
    | _ => []

def Conman.isAck (c : Conman) (m : CanMsg) : Bool :=
  decide (m.dst = c.helper.srcaddr ∧ m.src = c.helper.dstaddr ∧ m.object = objConsolerecv ∧
    m.type = .ack)

namespace StdinSession

def afterConman (s : StdinSession) (r : Conman × List CanMsg) : StdinSession :=
  { s with
    conman := r.1
    toFw := s.toFw ++ r.2
    sent := s.sent ++ r.2.filter fun m => m.type = .dat }

def afterTask (s : StdinSession) (fw : Fw) : TaskEff → StdinSession
  | .sent m => { s with fw := fw, toHelper := s.toHelper ++ [m] }
  | _ => { s with fw := fw }

def deliver (s : StdinSession) (i : Nat) (sendOk : Bool) : Option StdinSession :=
  if s.conman.helper.alive then
    (s.toHelper[i]?).map fun m =>
      { s with
        toHelper := s.toHelper.eraseIdx i
        acked := s.acked + if s.conman.isAck m then 1 else 0 }.afterConman
        (s.conman.canCb m sendOk)
  else none

def receive (s : StdinSession) (i : Nat) : Option StdinSession :=
  (s.toFw[i]?).map fun m =>
    let r := canservicesRxTask s.fw m
    { s with
      fw := r.1
      toFw := s.toFw.eraseIdx i
      toHelper := s.toHelper ++ sends r.2
      accepted := s.accepted ++ s.fw.accepted r.2 }

def step (s : StdinSession) : StdinAct → Option StdinSession
  | .stdin r sendOk =>
    if s.conman.helper.alive ∧ s.conman.helper.stdinWatcher then
      some ({ s with read := s.read ++ r.data }.afterConman (s.conman.stdinCb r sendOk))
    else none
  | .timeout =>
    if s.conman.helper.alive ∧ s.conman.helper.ackTimer then
      some (s.afterConman (s.conman.timeoutCb, []))
    else none
  | .recvTimeout sendOk =>
    if s.conman.helper.alive ∧ s.conman.helper.recvTimer then
      some (s.afterConman (s.conman.recvTimeoutCb sendOk))
    else none
  | .die text =>
    if s.conman.helper.alive then some (s.afterConman (s.conman.die text, [])) else none
  | .toHelper i sendOk => s.deliver i sendOk
  | .toFw i => s.receive i
  | .loseToHelper i => some { s with toHelper := s.toHelper.eraseIdx i }
  | .loseToFw i => some { s with toFw := s.toFw.eraseIdx i }
  | .uart c => some { s with fw := { s.fw with serial := s.fw.serial.usart1IsrRx c } }
  | .usartTx => some { s with fw := { s.fw with serial := s.fw.serial.usart1IsrTx.1 } }
  | .task ev => (consoleTask s.fw ev).map fun r => s.afterTask r.1 r.2

/-- The helper has just started and called `console_connect`; the firmware may be in any state that it
reaches from power on (`reached_task`), also connected to somebody else. -/
structure Start (s : StdinSession) : Prop where
  conman : ∃ src dst sendOk,
    (s.conman, s.toFw) = (Conman.init src dst).consoleConnect sendOk
  task : ∀ m, s.fw.task.pc = .built m → m.type = .dat
  toHelper : s.toHelper = []
  read : s.read = []
  accepted : s.accepted = []
  sent : s.sent = []
  acked : s.acked = 0

/-- What the stream from stdin promises. -/
structure Orderly (s : StdinSession) : Prop where
  /-- the bytes accepted are those read first -/
  faithful : s.accepted <+: s.read
  /-- at most one message is unacknowledged -/
  single : s.sent.length ≤ s.acked + 1 ∧ ∀ m ∈ s.sent, m.dlen ≤ 8
  /-- the process waits for stdin only when everything has been accepted -/
  idle : s.conman.helper.alive = true → s.conman.helper.stdinWatcher = true → s.accepted = s.read

end StdinSession

def stdinSession : Machine StdinSession StdinAct := ⟨StdinSession.step⟩

/-! ## what the firmware accepts -/

theorem Replies.accepted {fw : Fw} {m : CanMsg} {es : List Eff} (h : Replies fw m es) :
    fw.accepted es = [] := by
  unfold Fw.accepted
  rw [List.flatMap_eq_nil_iff]
  intro e he
  obtain ⟨r, rfl, _⟩ := h e he
  rfl

section
variable (fw : Fw) (m : CanMsg)

theorem serialSend_txq (s : Serial) (bs : List UInt8) :
    (s.serialSend bs).1.txq = s.txq ++ bs.take (s.serialSend bs).2 := by
  unfold Serial.serialSend streamSend
  dsimp only
  rw [List.length_take, ← List.take_eq_take_min]

/-- `accepted` is what `serialtxq` gains. -/
theorem rx_txq : (canservicesRxTask fw m).1.serial.txq =
    fw.serial.txq ++ fw.accepted (canservicesRxTask fw m).2 := by
  have hstep := canservicesRxTask_step fw m
  generalize (canservicesRxTask fw m).1 = fw' at hstep ⊢
  generalize (canservicesRxTask fw m).2 = es at hstep ⊢
  cases hstep with
  | conn o es _ _ he => rw [he.accepted, List.append_nil]; rfl
  | disc es _ he => rw [he.accepted, List.append_nil]; rfl
  | recv es _ _ _ he =>
    show _ = _ ++ (_ ++ fw.accepted es)
    rw [he.accepted, List.append_nil]
    exact serialSend_txq fw.serial m.data.bytes
  | give _ _ _ => exact (List.append_nil _).symm
  | other power es he _ _ _ _ => rw [he.accepted, List.append_nil]

theorem rx_accepted : (m.object ≠ objConsolerecv → fw.accepted (canservicesRxTask fw m).2 = []) ∧
    ∃ k, fw.accepted (canservicesRxTask fw m).2 = m.data.bytes.take k := by
  have hstep := canservicesRxTask_step fw m
  generalize (canservicesRxTask fw m).1 = fw' at hstep
  generalize (canservicesRxTask fw m).2 = es at hstep ⊢
  cases hstep with
  | conn o es _ _ he => exact ⟨fun _ => he.accepted, 0, he.accepted⟩
  | disc es _ he => exact ⟨fun _ => he.accepted, 0, he.accepted⟩
  | recv es _ ho _ he =>
    refine ⟨fun hne => absurd ho hne, (fw.serial.serialSend m.data.bytes).2, ?_⟩
    show _ ++ fw.accepted es = _
    rw [he.accepted, List.append_nil]
  | give _ _ _ => exact ⟨fun _ => rfl, 0, rfl⟩
  | other power es he _ _ _ _ => exact ⟨fun _ => he.accepted, 0, he.accepted⟩

theorem sendNak_type {r : CanMsg} (h : r ∈ sends (sendNak fw m)) : r.type = .nak := by
  unfold sendNak at h
  split at h
  · exact absurd h List.not_mem_nil
  · rw [List.mem_singleton.mp h]

/-- data that are acknowledged have been accepted to the last byte -/
theorem consolerecv_ack {r : CanMsg} (hr : r ∈ sends (canservicesConsolerecv fw m).2)
    (ht : r.type = .ack) : fw.accepted (canservicesConsolerecv fw m).2 = m.data.bytes := by
  have hnak : ∀ fw', r ∈ sends (sendNak fw' m) → False := by
    intro fw' h
    exact absurd (ht.symm.trans (sendNak_type fw' m h)) (by decide)
  unfold canservicesConsolerecv at hr ⊢
  dsimp only at hr ⊢
  split at hr
  · exact (hnak _ hr).elim
  · rename_i h1
    split at hr
    · exact (hnak _ hr).elim
    · rename_i h2
      split at hr
      · exact (hnak _ hr).elim
      · rename_i h3
        rw [if_neg h1, if_neg h2, if_neg h3]
        have htake : m.data.bytes.take (fw.serial.serialSend m.data.bytes).2 = m.data.bytes :=
          List.take_of_length_le (Nat.le_of_not_lt h3)
        split at hr
        · rename_i h4
          rw [if_pos h4]
          show _ ++ ([] ++ []) = _
          rw [List.append_nil, List.append_nil]
          exact htake
        · exact absurd hr List.not_mem_nil

theorem rx_ack {r : CanMsg} (ho : m.object = objConsolerecv)
    (hr : r ∈ sends (canservicesRxTask fw m).2) (ht : r.type = .ack) :
    fw.accepted (canservicesRxTask fw m).2 = m.data.bytes := by
  have hdispatch : requestDispatch fw m = canservicesConsolerecv fw m := by
    unfold requestDispatch
    rw [ho]
    rfl
  by_cases hreq : m.type = .ro ∨ m.type = .wo ∨ m.type = .wna ∨ m.type = .dat
  · rw [rx_request fw m hreq, hdispatch] at hr ⊢
    exact consolerecv_ack fw m hr ht
  · have hsilent : sends (canservicesRxTask fw m).2 = [] := by
      apply rx_silent
      cases hm : m.type <;> simp_all
    rw [hsilent] at hr
    exact absurd hr List.not_mem_nil

end

theorem taskStep_data {fw fw' : Fw} {ev : TaskEv} {e : TaskEff} (h : TaskStep fw ev fw' e)
    (hb : ∀ m, fw.task.pc = .built m → m.type = .dat) :
    (∀ m, fw'.task.pc = .built m → m.type = .dat) ∧ ∀ m, e = .sent m → m.type = .dat := by
  cases h with
  | recv hpc =>
    refine ⟨fun m hm => ?_, fun m hm => nomatch hm⟩
    have hm : (if fw.serial.rxq = [] then TaskPc.recv else .got _) = .built m := hm
    split at hm <;> exact nomatch hm
  | addr d hpc => exact ⟨(fun m hm => nomatch hm), fun m hm => nomatch hm⟩
  | object d a hpc => exact ⟨(fun m hm => nomatch hm), fun m hm => nomatch hm⟩
  | build d a o hpc =>
    refine ⟨fun m hm => ?_, fun m hm => nomatch hm⟩
    cases hm
    rfl
  | send m hpc =>
    refine ⟨fun m' hm => ?_, fun m' hm => ?_⟩
    · have hm : (if m.eot then TaskPc.wait else .recv) = .built m' := hm
      split at hm <;> exact nomatch hm
    · cases hm
      exact hb m hpc
  | fail m hpc => exact ⟨(fun m hm => nomatch hm), fun m hm => nomatch hm⟩
  | notified hpc hn => exact ⟨(fun m hm => nomatch hm), fun m hm => nomatch hm⟩
  | expired hpc hn => exact ⟨(fun m hm => nomatch hm), fun m hm => nomatch hm⟩

/-- the console task sends nothing but data -/
theorem reached_task {a : Addr} {p : Peered} (h : peered.Reach Machine.Free (Peered.boot a) p) :
    ∀ m, p.fw.task.pc = .built m → m.type = .dat := by
  refine h.inv (I := fun p => ∀ m, p.fw.task.pc = .built m → m.type = .dat)
    (fun m hm => nomatch hm) fun x act y hx _ hs => ?_
  cases act with
  | uart c =>
    rw [← Option.some.inj hs]
    exact hx
  | usartTx =>
    rw [← Option.some.inj hs]
    exact hx
  | can m =>
    rw [← Option.some.inj hs]
    intro m' hm
    have hpc := (canservicesRxTask_step x.fw m).pc.1
    exact hx m' (hpc ▸ hm)
  | task ev =>
    obtain ⟨⟨fw, e⟩, hr, rfl⟩ := Option.map_eq_some_iff.mp hs
    exact (taskStep_data (consoleTask_step hr).2 hx).1

/-! ## the token -/

/-- a message about the connection or the data -/
def CanMsg.isCall (m : CanMsg) : Bool :=
  m.object == objConsolerecv || m.object == objConsoleconn

/-- an ACK or NAK of one -/
def CanMsg.isAnswer (m : CanMsg) : Bool :=
  m.isCall && (m.type == .ack || m.type == .nak)

theorem CanMsg.isCall_iff (m : CanMsg) :
    m.isCall = true ↔ m.object = objConsolerecv ∨ m.object = objConsoleconn := by
  unfold CanMsg.isCall
  rw [Bool.or_eq_true, beq_iff_eq, beq_iff_eq]

theorem CanMsg.isAnswer_iff (m : CanMsg) : m.isAnswer = true ↔ m.isCall = true ∧ m.isReply := by
  unfold CanMsg.isAnswer CanMsg.isReply
  rw [Bool.and_eq_true, Bool.or_eq_true, beq_iff_eq, beq_iff_eq]

theorem countP_eraseIdx {α : Type*} (p : α → Bool) {l : List α} {i : Nat} {a : α}
    (h : l[i]? = some a) : l.countP p = (l.eraseIdx i).countP p + if p a then 1 else 0 := by
  obtain ⟨hi, rfl⟩ := List.getElem?_eq_some_iff.mp h
  rw [← (List.getElem_cons_eraseIdx_perm hi).countP_eq, List.countP_cons]

namespace StdinSession

def watching (s : StdinSession) : Nat := if s.conman.helper.stdinWatcher then 1 else 0

/-- the watcher, the requests and the answers -/
def token (s : StdinSession) : Nat :=
  s.toFw.countP CanMsg.isCall + s.toHelper.countP CanMsg.isAnswer + s.watching

/-- What has been read and what has been accepted, by where the token is. -/
structure Faithful (s : StdinSession) : Prop where
  token : s.token ≤ 1
  objid : s.conman.helper.objid = objConsolesend
  task : ∀ m, s.fw.task.pc = .built m → m.type = .dat
  ordered : s.accepted <+: s.read
  idle : s.conman.helper.alive = true → s.conman.helper.stdinWatcher = true → s.accepted = s.read
  data : ∀ m ∈ s.toFw, m.object = objConsolerecv → s.read = s.accepted ++ m.data.bytes
  conn : ∀ m ∈ s.toFw, m.object = objConsoleconn → s.accepted = s.read ∧ s.sent.length ≤ s.acked
  ack : ∀ m ∈ s.toHelper, m.isAnswer = true → m.type = .ack →
    s.accepted = s.read ∧ (m.object = objConsoleconn → s.sent.length ≤ s.acked)
  count : s.sent.length + s.watching ≤ s.acked + 1

theorem Faithful.start {s : StdinSession} (h : s.Start) : s.Faithful := by
  obtain ⟨src, dst, sendOk, hconman⟩ := h.conman
  have hc : s.conman.helper.stdinWatcher = false ∧ s.conman.helper.objid = objConsolesend ∧
      s.toFw.countP CanMsg.isCall ≤ 1 ∧ ∀ m ∈ s.toFw, m.object = objConsoleconn := by
    unfold Conman.consoleConnect Conman.request at hconman
    cases sendOk with
    | true =>
      obtain ⟨h1, h2⟩ := Prod.mk.inj hconman
      rw [h1, h2]
      exact ⟨rfl, rfl, List.countP_le_length, fun m hm => by rw [List.mem_singleton.mp hm]; rfl⟩
    | false =>
      obtain ⟨h1, h2⟩ := Prod.mk.inj hconman
      rw [h1, h2]
      exact ⟨rfl, rfl, Nat.zero_le 1, fun m hm => absurd hm List.not_mem_nil⟩
  obtain ⟨hw, ho, hcount, hcalls⟩ := hc
  have hwatch : s.watching = 0 := by
    unfold watching
    rw [hw]
    rfl
  have hsame : s.accepted = s.read := h.accepted.trans h.read.symm
  have hnone : s.sent.length = 0 := by rw [h.sent]; rfl
  exact {
    token := by
      unfold StdinSession.token
      rw [h.toHelper, hwatch]
      exact hcount
    objid := ho
    task := h.task
    ordered := hsame ▸ List.prefix_refl _
    idle := fun _ _ => hsame
    data := fun m hm hr => absurd (hr.symm.trans (hcalls m hm)) (by decide)
    conn := fun _ _ _ => ⟨hsame, hnone ▸ Nat.zero_le _⟩
    ack := fun m hm => absurd (h.toHelper ▸ hm) List.not_mem_nil
    count := by
      rw [hwatch, hnone]
      exact Nat.zero_le _ }

theorem Faithful.orderly {s : StdinSession} (h : s.Faithful) : s.Orderly where
  faithful := h.ordered
  single := ⟨Nat.le_trans (Nat.le_add_right _ _) h.count, fun m _ => m.data.len_le⟩
  idle := h.idle

/-! ## one step -/

section
variable {s : StdinSession}

/-- while stdin is watched, no request and no answer is in flight -/
theorem Faithful.watching (h : s.Faithful) (hw : s.conman.helper.stdinWatcher = true) :
    (∀ m ∈ s.toFw, ¬ m.isCall = true) ∧ (∀ m ∈ s.toHelper, ¬ m.isAnswer = true) ∧
      s.sent.length ≤ s.acked := by
  have hone : s.watching = 1 := if_pos hw
  have htoken := h.token
  have hcount := h.count
  unfold StdinSession.token at htoken
  exact ⟨List.countP_eq_zero.mp (by omega), List.countP_eq_zero.mp (by omega), by omega⟩

theorem not_isCall {m : CanMsg} (ho : m.object = objConsolesend ∨ m.object = objConsoledisc) :
    ¬ m.isCall = true := by
  rw [m.isCall_iff]
  rcases ho with ho | ho <;> rw [ho] <;> decide

theorem Faithful.aside (h : s.Faithful) {r : Conman × List CanMsg} (ha : s.conman.Aside r) :
    (s.afterConman r).Faithful := by
  have hcalls : ∀ m ∈ r.2, ¬ m.isCall = true := fun m hm => not_isCall (h.objid ▸ (ha.sent m hm).2)
  have hsent : s.sent ++ r.2.filter (fun m => m.type = .dat) = s.sent := by
    rw [List.filter_eq_nil_iff.mpr fun m hm => by simpa using (ha.sent m hm).1, List.append_nil]
  have hwatch : (s.afterConman r).watching = s.watching := by
    unfold StdinSession.watching
    show (if r.1.helper.stdinWatcher then 1 else 0) = _
    rw [ha.watcher]
  have hnew : ∀ m ∈ s.toFw ++ r.2, m.isCall = true → m ∈ s.toFw := by
    intro m hm hc
    rcases List.mem_append.mp hm with hm | hm
    · exact hm
    · exact absurd hc (hcalls m hm)
  exact {
    token := by
      have htoken := h.token
      unfold StdinSession.token at htoken ⊢
      rw [hwatch]
      show (s.toFw ++ r.2).countP _ + _ + _ ≤ 1
      rw [List.countP_append, List.countP_eq_zero.mpr hcalls]
      exact htoken
    objid := ha.objid.trans h.objid
    task := h.task
    ordered := h.ordered
    idle := fun h1 h2 => h.idle (ha.alive h1) (ha.watcher ▸ h2)
    data := fun m hm ho => h.data m (hnew m hm (m.isCall_iff.mpr (.inl ho))) ho
    conn := fun m hm ho => by
      show _ ∧ (s.sent ++ r.2.filter _).length ≤ s.acked
      rw [hsent]
      exact h.conn m (hnew m hm (m.isCall_iff.mpr (.inr ho))) ho
    ack := fun m hm h1 h2 => by
      show _ ∧ (_ → (s.sent ++ r.2.filter _).length ≤ s.acked)
      rw [hsent]
      exact h.ack m hm h1 h2
    count := by
      rw [hwatch]
      show (s.sent ++ r.2.filter _).length + _ ≤ s.acked + 1
      rw [hsent]
      exact h.count }

theorem Faithful.lose (h : s.Faithful) {toHelper toFw : List CanMsg}
    (hh : toHelper.Sublist s.toHelper) (hf : toFw.Sublist s.toFw) :
    Faithful { s with toHelper := toHelper, toFw := toFw } where
  token := by
    have htoken := h.token
    have h1 := hf.countP_le (p := CanMsg.isCall)
    have h2 := hh.countP_le (p := CanMsg.isAnswer)
    unfold StdinSession.token at htoken ⊢
    show toFw.countP _ + toHelper.countP _ + s.watching ≤ 1
    omega
  objid := h.objid
  task := h.task
  ordered := h.ordered
  idle := h.idle
  data := fun m hm => h.data m (hf.subset hm)
  conn := fun m hm => h.conn m (hf.subset hm)
  ack := fun m hm => h.ack m (hh.subset hm)
  count := h.count

/-- only the firmware and the answers of its console task change -/
theorem Faithful.node (h : s.Faithful) (fw : Fw) (ms : List CanMsg)
    (hfw : ∀ m, fw.task.pc = .built m → m.type = .dat) (hms : ∀ m ∈ ms, m.type = .dat) :
    Faithful { s with fw := fw, toHelper := s.toHelper ++ ms } := by
  have hanswers : ∀ m ∈ ms, ¬ m.isAnswer = true := by
    intro m hm ha
    rcases (m.isAnswer_iff.mp ha).2 with ht | ht <;>
      exact absurd ((hms m hm).symm.trans ht) (by decide)
  exact {
    token := by
      have htoken := h.token
      unfold StdinSession.token at htoken ⊢
      show s.toFw.countP _ + (s.toHelper ++ ms).countP _ + s.watching ≤ 1
      rw [List.countP_append, List.countP_eq_zero.mpr hanswers]
      exact htoken
    objid := h.objid
    task := hfw
    ordered := h.ordered
    idle := h.idle
    data := h.data
    conn := h.conn
    ack := fun m hm h1 h2 => by
      rcases List.mem_append.mp hm with hm | hm
      · exact h.ack m hm h1 h2
      · exact absurd h1 (hanswers m hm)
    count := h.count }

/-- Data are read: the token is now the request. -/
theorem Faithful.reads (h : s.Faithful) (hl : s.conman.helper.alive = true)
    (hw : s.conman.helper.stdinWatcher = true) (data : Payload) {r : Conman × List CanMsg}
    (hhelper : r.1.helper = { s.conman.helper with ackTimer := true, stdinWatcher := false })
    (hsent : r.2 = [s.conman.datMsg data]) :
    Faithful ({ s with read := s.read ++ data.bytes }.afterConman r) := by
  obtain ⟨hcalls, hanswers, hcount⟩ := h.watching hw
  have hidle := h.idle hl hw
  have hwatch : r.1.helper.stdinWatcher = false := by rw [hhelper]
  have hnew : ∀ m ∈ s.toFw ++ r.2, m.isCall = true → m = s.conman.datMsg data := by
    intro m hm hc
    rcases List.mem_append.mp hm with hm | hm
    · exact absurd hc (hcalls m hm)
    · rw [hsent] at hm
      exact List.mem_singleton.mp hm
  exact {
    token := by
      have hone := List.countP_le_length (p := CanMsg.isCall) (l := [s.conman.datMsg data])
      unfold StdinSession.token StdinSession.watching
      show (s.toFw ++ r.2).countP _ + s.toHelper.countP _ +
        (if r.1.helper.stdinWatcher then 1 else 0) ≤ 1
      rw [hwatch, hsent, List.countP_append, List.countP_eq_zero.mpr hcalls,
        List.countP_eq_zero.mpr hanswers]
      simpa using hone
    objid := by
      show r.1.helper.objid = _
      rw [hhelper]
      exact h.objid
    task := h.task
    ordered := by
      show s.accepted <+: s.read ++ data.bytes
      rw [hidle]
      exact List.prefix_append _ _
    idle := fun _ h2 => absurd (hwatch.symm.trans h2) Bool.false_ne_true
    data := fun m hm ho => by
      rw [hnew m hm (m.isCall_iff.mpr (.inl ho))]
      show s.read ++ data.bytes = s.accepted ++ data.bytes
      rw [hidle]
    conn := fun m hm ho => by
      rw [hnew m hm (m.isCall_iff.mpr (.inr ho))] at ho
      have ho : objConsolerecv = objConsoleconn := ho
      exact absurd ho (by decide)
    ack := fun m hm h1 _ => absurd h1 (hanswers m hm)
    count := by
      have hone := List.length_filter_le (fun m : CanMsg => decide (m.type = .dat))
        [s.conman.datMsg data]
      rw [List.length_singleton] at hone
      unfold StdinSession.watching
      show (s.sent ++ r.2.filter _).length + (if r.1.helper.stdinWatcher then 1 else 0) ≤ s.acked + 1
      rw [hwatch, hsent, List.length_append]
      show _ + _ + 0 ≤ _
      omega }

/-- The process ends in `stdin_cb`, perhaps with bytes that it has read. -/
theorem Faithful.ends (h : s.Faithful) (hl : s.conman.helper.alive = true)
    (hw : s.conman.helper.stdinWatcher = true) (bs : List UInt8) {r : Conman × List CanMsg}
    {text : String} (hhelper : r.1.helper = { s.conman.helper with died := some text })
    (hsent : ∀ m ∈ r.2, m = s.conman.helper.consoleDisconnect) :
    Faithful ({ s with read := s.read ++ bs }.afterConman r) := by
  obtain ⟨hcalls, hanswers, hcount⟩ := h.watching hw
  have hidle := h.idle hl hw
  have hwatch : r.1.helper.stdinWatcher = true := by
    rw [hhelper]
    exact hw
  have hdead : ¬ r.1.helper.alive = true := by
    rw [hhelper]
    exact fun ha => nomatch ha
  have hnew : ∀ m ∈ s.toFw ++ r.2, ¬ m.isCall = true := by
    intro m hm
    rcases List.mem_append.mp hm with hm | hm
    · exact hcalls m hm
    · rw [hsent m hm]
      exact not_isCall (.inr rfl)
  have hdats : s.sent ++ r.2.filter (fun m => m.type = .dat) = s.sent := by
    rw [List.filter_eq_nil_iff.mpr, List.append_nil]
    intro m hm
    rw [hsent m hm]
    exact fun hd => nomatch of_decide_eq_true hd
  exact {
    token := by
      unfold StdinSession.token StdinSession.watching
      show (s.toFw ++ r.2).countP _ + s.toHelper.countP _ +
        (if r.1.helper.stdinWatcher then 1 else 0) ≤ 1
      rw [hwatch, List.countP_eq_zero.mpr hnew, List.countP_eq_zero.mpr hanswers]
      exact Nat.le_refl 1
    objid := by
      show r.1.helper.objid = _
      rw [hhelper]
      exact h.objid
    task := h.task
    ordered := by
      show s.accepted <+: s.read ++ bs
      rw [hidle]
      exact List.prefix_append _ _
    idle := fun h1 _ => absurd h1 hdead
    data := fun m hm ho => absurd (m.isCall_iff.mpr (.inl ho)) (hnew m hm)
    conn := fun m hm ho => absurd (m.isCall_iff.mpr (.inr ho)) (hnew m hm)
    ack := fun m hm h1 _ => absurd h1 (hanswers m hm)
    count := by
      unfold StdinSession.watching
      show (s.sent ++ r.2.filter _).length + (if r.1.helper.stdinWatcher then 1 else 0) ≤ s.acked + 1
      rw [hwatch, hdats]
      exact Nat.add_le_add_right hcount 1 }

theorem Faithful.stdin (h : s.Faithful) (r : ReadResult) (sendOk : Bool)
    (hl : s.conman.helper.alive = true) (hw : s.conman.helper.stdinWatcher = true) :
    Faithful ({ s with read := s.read ++ r.data }.afterConman (s.conman.stdinCb r sendOk)) := by
  obtain ⟨rfl, hcb⟩ | ⟨data, rfl, _, hhelper, hsent⟩ | ⟨text, hhelper, hsent⟩ :=
    s.conman.stdinCb_cases r sendOk
  · have hread : s.read ++ ReadResult.eagain.data = s.read := List.append_nil _
    rw [hcb, hread]
    exact h.aside ⟨rfl, rfl, fun ha => ha, fun _ hm => absurd hm List.not_mem_nil⟩
  · exact h.reads hl hw data hhelper hsent
  · exact h.ends hl hw r.data hhelper fun m hm => (hsent m hm).2

theorem Faithful.deliver (h : s.Faithful) {i : Nat} {m : CanMsg} (hi : s.toHelper[i]? = some m)
    (sendOk : Bool) : Faithful ({ s with
      toHelper := s.toHelper.eraseIdx i
      acked := s.acked + if s.conman.isAck m then 1 else 0 }.afterConman
        (s.conman.canCb m sendOk)) := by
  have hlose : Faithful { s with toHelper := s.toHelper.eraseIdx i, toFw := s.toFw } :=
    h.lose (List.eraseIdx_sublist _ _) (List.Sublist.refl _)
  obtain ⟨ha, ht, hcb⟩ | ⟨hna, haside⟩ := s.conman.canCb_cases m sendOk
  · -- the token goes from the answer to the watcher
    have hanswer : m.isAnswer = true :=
      m.isAnswer_iff.mpr ⟨m.isCall_iff.mpr ha.2.2.2, ha.2.2.1⟩
    have hcount := countP_eraseIdx CanMsg.isAnswer hi
    rw [if_pos hanswer] at hcount
    have htoken := h.token
    unfold StdinSession.token at htoken
    have hcalls : ∀ m' ∈ s.toFw, ¬ m'.isCall = true := List.countP_eq_zero.mp (by omega)
    have hanswers : ∀ m' ∈ s.toHelper.eraseIdx i, ¬ m'.isAnswer = true :=
      List.countP_eq_zero.mp (by omega)
    obtain ⟨hsame, hconn⟩ := h.ack m (List.mem_of_getElem? hi) hanswer ht
    have hacked : s.sent.length ≤ s.acked + if s.conman.isAck m then 1 else 0 := by
      rcases ha.2.2.2 with ho | ho
      · have hack : s.conman.isAck m = true := decide_eq_true ⟨ha.1, ha.2.1, ho, ht⟩
        have hc := h.count
        rw [if_pos hack]
        omega
      · exact Nat.le_trans (hconn ho) (Nat.le_add_right _ _)
    rw [hcb]
    unfold StdinSession.afterConman
    simp only [List.append_nil, List.filter_nil]
    exact {
      token := by
        unfold StdinSession.token StdinSession.watching
        show s.toFw.countP _ + (s.toHelper.eraseIdx i).countP _ + 1 ≤ 1
        omega
      objid := h.objid
      task := h.task
      ordered := h.ordered
      idle := fun _ _ => hsame
      data := fun m' hm ho => absurd (m'.isCall_iff.mpr (.inl ho)) (hcalls m' hm)
      conn := fun m' hm ho => absurd (m'.isCall_iff.mpr (.inr ho)) (hcalls m' hm)
      ack := fun m' hm h1 _ => absurd h1 (hanswers m' hm)
      count := Nat.add_le_add_right hacked 1 }
  · have hack : ¬ s.conman.isAck m = true := fun hack => by
      have hack := of_decide_eq_true hack
      exact hna ⟨⟨hack.1, hack.2.1, .inl hack.2.2.2, .inl hack.2.2.1⟩, hack.2.2.2⟩
    rw [if_neg hack]
    exact hlose.aside haside

def received (s : StdinSession) (i : Nat) (m : CanMsg) : StdinSession :=
  { s with
    fw := (canservicesRxTask s.fw m).1
    toFw := s.toFw.eraseIdx i
    toHelper := s.toHelper ++ sends (canservicesRxTask s.fw m).2
    accepted := s.accepted ++ s.fw.accepted (canservicesRxTask s.fw m).2 }

/-- What a request makes the firmware accept is a prefix of what has been read; its ACK says that
this is all of it. -/
theorem Faithful.answered (h : s.Faithful) {m : CanMsg} (hm : m ∈ s.toFw) (hcall : m.isCall = true) :
    s.accepted ++ s.fw.accepted (canservicesRxTask s.fw m).2 <+: s.read ∧
      ∀ r ∈ sends (canservicesRxTask s.fw m).2, r.type = .ack →
        s.accepted ++ s.fw.accepted (canservicesRxTask s.fw m).2 = s.read ∧
          (r.object = objConsoleconn → s.sent.length ≤ s.acked) := by
  obtain ⟨hnone, k, htake⟩ := rx_accepted s.fw m
  by_cases ho : m.object = objConsolerecv
  · rw [h.data m hm ho]
    constructor
    · rw [htake, List.prefix_append_right_inj]
      exact List.take_prefix _ _
    · intro r hr ht
      refine ⟨by rw [rx_ack s.fw m ho hr ht], fun hc => ?_⟩
      rw [(rx_form s.fw m hr).2.2.2, ho] at hc
      exact absurd hc (by decide)
  · have hc : m.object = objConsoleconn := (m.isCall_iff.mp hcall).resolve_left ho
    obtain ⟨hsame, hle⟩ := h.conn m hm hc
    rw [hnone ho, List.append_nil, hsame]
    exact ⟨List.prefix_refl _, fun _ _ _ => ⟨rfl, fun _ => hle⟩⟩

theorem received_task (h : s.Faithful) (m : CanMsg) :
    ∀ m', (canservicesRxTask s.fw m).1.task.pc = .built m' → m'.type = .dat := by
  rw [(canservicesRxTask_step s.fw m).pc.1]
  exact h.task

/-- A request reaches the firmware: the token goes to its answer. -/
theorem Faithful.receive_call (h : s.Faithful) {i : Nat} {m : CanMsg} (hi : s.toFw[i]? = some m)
    (hcall : m.isCall = true) : (s.received i m).Faithful := by
  have htoken := h.token
  have hcount := countP_eraseIdx CanMsg.isCall hi
  unfold StdinSession.token at htoken
  rw [if_pos hcall] at hcount
  have hcalls : ∀ m' ∈ s.toFw.eraseIdx i, ¬ m'.isCall = true := List.countP_eq_zero.mp (by omega)
  have hanswers : ∀ m' ∈ s.toHelper, ¬ m'.isAnswer = true := List.countP_eq_zero.mp (by omega)
  have hwatch : s.watching = 0 := by omega
  have hone : (sends (canservicesRxTask s.fw m).2).countP CanMsg.isAnswer ≤ 1 :=
    Nat.le_trans List.countP_le_length (rx_le_one s.fw m)
  obtain ⟨hstart, hack⟩ := h.answered (List.mem_of_getElem? hi) hcall
  exact {
    token := by
      unfold StdinSession.token
      show (s.toFw.eraseIdx i).countP _ + (s.toHelper ++ sends _).countP _ + s.watching ≤ 1
      rw [List.countP_append]
      omega
    objid := h.objid
    task := received_task h m
    ordered := hstart
    idle := fun _ hw => absurd hwatch (by
      have hone : s.watching = 1 := if_pos hw
      omega)
    data := fun m' hm ho => absurd (m'.isCall_iff.mpr (.inl ho)) (hcalls m' hm)
    conn := fun m' hm ho => absurd (m'.isCall_iff.mpr (.inr ho)) (hcalls m' hm)
    ack := fun m' hm h1 h2 => by
      rcases List.mem_append.mp hm with hm | hm
      · exact absurd h1 (hanswers m' hm)
      · exact hack m' hm h2
    count := h.count }

/-- Anything else that reaches the firmware is neither accepted nor answered. -/
theorem Faithful.receive_other (h : s.Faithful) {i : Nat} {m : CanMsg}
    (hcall : ¬ m.isCall = true) : (s.received i m).Faithful := by
  have hsame : s.accepted ++ s.fw.accepted (canservicesRxTask s.fw m).2 = s.accepted := by
    rw [(rx_accepted s.fw m).1 fun ho => hcall (m.isCall_iff.mpr (.inl ho)), List.append_nil]
  have hanswers : ∀ r ∈ sends (canservicesRxTask s.fw m).2, ¬ r.isAnswer = true := by
    intro r hr ha
    have hc := (r.isAnswer_iff.mp ha).1
    rw [r.isCall_iff, (rx_form s.fw m hr).2.2.2] at hc
    exact hcall (m.isCall_iff.mpr hc)
  have hlose : Faithful { s with toHelper := s.toHelper, toFw := s.toFw.eraseIdx i } :=
    h.lose (List.Sublist.refl _) (List.eraseIdx_sublist _ _)
  unfold received
  rw [hsame]
  exact {
    token := by
      have ht := hlose.token
      unfold StdinSession.token at ht ⊢
      show _ + (s.toHelper ++ sends _).countP _ + _ ≤ 1
      rw [List.countP_append, List.countP_eq_zero.mpr hanswers]
      exact ht
    objid := h.objid
    task := received_task h m
    ordered := h.ordered
    idle := h.idle
    data := hlose.data
    conn := hlose.conn
    ack := fun m' hm h1 h2 => by
      rcases List.mem_append.mp hm with hm | hm
      · exact h.ack m' hm h1 h2
      · exact absurd h1 (hanswers m' hm)
    count := h.count }

theorem Faithful.task_step (h : s.Faithful) {ev : TaskEv} {fw : Fw} {e : TaskEff}
    (hs : consoleTask s.fw ev = some (fw, e)) : (s.afterTask fw e).Faithful := by
  obtain ⟨hfw, he⟩ := taskStep_data (consoleTask_step hs).2 h.task
  have hquiet : Faithful { s with fw := fw } := by
    have hnode := h.node fw [] hfw (fun m hm => absurd hm List.not_mem_nil)
    rw [List.append_nil] at hnode
    exact hnode
  cases e with
  | quiet => exact hquiet
  | took bs => exact hquiet
  | sent m => exact h.node fw [m] hfw fun m' hm => List.mem_singleton.mp hm ▸ he m rfl

/-- **One step** -/
theorem Faithful.step (h : s.Faithful) {a : StdinAct} {t : StdinSession}
    (hs : stdinSession.step s a = some t) : t.Faithful := by
  have hdie : ∀ text, (s.afterConman (s.conman.die text, [])).Faithful := fun text =>
    h.aside (Conman.aside_die text rfl rfl)
  have hserial : ∀ serial, Faithful { s with fw := { s.fw with serial := serial } } := by
    intro serial
    have hnode := h.node { s.fw with serial := serial } [] h.task
      (fun m hm => absurd hm List.not_mem_nil)
    rw [List.append_nil] at hnode
    exact hnode
  cases a with
  | stdin r sendOk =>
    obtain ⟨⟨hl, hw⟩, ht⟩ := Option.ite_none_right_eq_some.mp hs
    rw [← Option.some.inj ht]
    exact h.stdin r sendOk hl hw
  | timeout =>
    obtain ⟨_, ht⟩ := Option.ite_none_right_eq_some.mp hs
    rw [← Option.some.inj ht]
    exact hdie _
  | recvTimeout sendOk =>
    obtain ⟨_, ht⟩ := Option.ite_none_right_eq_some.mp hs
    rw [← Option.some.inj ht]
    exact h.aside (Conman.recvTimeoutCb_aside sendOk)
  | die text =>
    obtain ⟨_, ht⟩ := Option.ite_none_right_eq_some.mp hs
    rw [← Option.some.inj ht]
    exact hdie text
  | toHelper i sendOk =>
    obtain ⟨_, ht⟩ := Option.ite_none_right_eq_some.mp hs
    obtain ⟨m, hm, rfl⟩ := Option.map_eq_some_iff.mp ht
    exact h.deliver hm sendOk
  | toFw i =>
    obtain ⟨m, hm, rfl⟩ := Option.map_eq_some_iff.mp hs
    by_cases hcall : m.isCall = true
    · exact h.receive_call hm hcall
    · exact h.receive_other hcall
  | loseToHelper i =>
    rw [← Option.some.inj hs]
    exact h.lose (List.eraseIdx_sublist _ _) (List.Sublist.refl _)
  | loseToFw i =>
    rw [← Option.some.inj hs]
    exact h.lose (List.Sublist.refl _) (List.eraseIdx_sublist _ _)
  | uart c =>
    rw [← Option.some.inj hs]
    exact hserial _
  | usartTx =>
    rw [← Option.some.inj hs]
    exact hserial _
  | task ev =>
    obtain ⟨⟨fw, e⟩, hr, rfl⟩ := Option.map_eq_some_iff.mp hs
    exact h.task_step hr

end

end StdinSession

/-- **The bytes accepted into `serialtxq` are a prefix of the bytes read from stdin**, in every state
reached. -/
theorem stdin_prefix {s t : StdinSession} (h0 : s.Start)
    (h : stdinSession.Reach Machine.Free s t) : t.Orderly :=
  (h.inv (StdinSession.Faithful.start h0) fun _ _ _ hx _ hs => hx.step hs).orderly

/-- a helper on node 1 and the control processor of node 16, a moment after `console_connect` -/
def stdinBoot : StdinSession where
  fw := Fw.init 16
  conman := ((Conman.init 1 16).consoleConnect true).1
  toHelper := []
  toFw := ((Conman.init 1 16).consoleConnect true).2
  read := []
  accepted := []
  sent := []
  acked := 0

/-- The connection is made, 3 bytes go through, and the next one is lost. -/
def stdinRun : List StdinAct :=
  [.toFw 0, .toHelper 0 true, .stdin (.bytes (.ofList [104, 105, 10])) true, .toFw 0, .usartTx,
    .toHelper 0 true, .stdin (.bytes (.ofList [120])) true, .loseToFw 0]

theorem stdin_prefix_run : ∃ t, stdinSession.run stdinBoot stdinRun = some t ∧ t.Orderly ∧
    (t.accepted, t.read, t.acked) = ([104, 105, 10], [104, 105, 10, 120], 1) := by
  have hrun : (stdinSession.run stdinBoot stdinRun).map (fun t => (t.accepted, t.read, t.acked)) =
      some ([104, 105, 10], [104, 105, 10, 120], 1) := by decide +kernel
  obtain ⟨t, ht, hout⟩ := Option.map_eq_some_iff.mp hrun
  refine ⟨t, ht, stdin_prefix ⟨⟨1, 16, true, rfl⟩, ?_, rfl, rfl, rfl, rfl, rfl⟩
    (Machine.run_free ht), hout⟩
  exact fun m hm => nomatch hm

end Bramble
