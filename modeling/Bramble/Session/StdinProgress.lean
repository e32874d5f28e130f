import Bramble.Session.Stdin
import Bramble.Lib.Lists
import Bramble.Lib.Progress

/-!
# The stdin-to-serial stream does not stall

While nothing is lost, no timer expires and `can_send` works, a helper that lives waits for stdin, or
its request is on the bus, or the answer is: there is always exactly one token.  So when the bus has
delivered everything, a helper that lives waits for stdin, and the firmware has accepted what was read.

* `StdinSession.Smooth`       the runs;
* `StdinSession.Lively`       the invariant;
* `StdinSession.flight`       the rank of the messages in flight: replies are not answered;
* `stdin_settles`             the bus runs empty, and then everything read is accepted.
-/

namespace Bramble

/-- a request of the helper about the connection or the data: each is answered -/
def Conman.Call (c : Conman) (m : CanMsg) : Prop :=
  m.src = c.helper.srcaddr ∧ ((m.object = objConsoleconn ∧ m.type = .wo) ∨
    (m.object = objConsolerecv ∧ m.type = .dat ∧ m.eot = true))

namespace StdinSession

/-- Nothing is lost, nothing expires, `can_send` works, and the helper does not `die` of another error
than those of its callbacks. -/
def Smooth (_ : StdinSession) : StdinAct → Prop
  | .stdin _ sendOk | .toHelper _ sendOk => sendOk = true
  | .toFw _ | .uart _ | .usartTx | .task _ => True
  | .timeout | .recvTimeout _ | .die _ | .loseToHelper _ | .loseToFw _ => False

/-- the bus delivers -/
def Delivering (_ : StdinSession) : StdinAct → Prop
  | .toHelper _ sendOk => sendOk = true
  | .toFw _ => True
  | _ => False

instance (s : StdinSession) : ∀ a, Decidable (Smooth s a)
  | .stdin _ sendOk | .toHelper _ sendOk => inferInstanceAs (Decidable (sendOk = true))
  | .toFw _ | .uart _ | .usartTx | .task _ => inferInstanceAs (Decidable True)
  | .timeout | .recvTimeout _ | .die _ | .loseToHelper _ | .loseToFw _ =>
    inferInstanceAs (Decidable False)

instance (s : StdinSession) : ∀ a, Decidable (Delivering s a)
  | .toHelper _ sendOk => inferInstanceAs (Decidable (sendOk = true))
  | .toFw _ => inferInstanceAs (Decidable True)
  | .stdin .. | .timeout | .recvTimeout _ | .die _ | .loseToHelper _ | .loseToFw _ | .uart _
  | .usartTx | .task _ => inferInstanceAs (Decidable False)

/-- The bus is empty, but for what nobody receives any more. -/
structure Quiet (s : StdinSession) : Prop where
  toFw : s.toFw = []
  toHelper : s.conman.helper.alive = true → s.toHelper = []

/-- a message may have an answer, but an answer has none -/
def cost (ms : List CanMsg) : Nat := ms.length + ms.countP fun m => decide (¬ m.isReply)

def flight (s : StdinSession) : Nat := cost s.toFw + cost s.toHelper

/-- The token is there, and who has it will answer. -/
structure Lively (s : StdinSession) : Prop where
  faithful : s.Faithful
  peer : s.conman.helper.dstaddr = s.fw.srcaddr
  calls : ∀ m ∈ s.toFw, m.isCall = true → s.conman.Call m
  answers : ∀ m ∈ s.toHelper, m.isAnswer = true → s.conman.Answer m
  kept : s.conman.helper.alive = true → s.token = 1

section
variable {s t : StdinSession}

theorem rx_call {c : Conman} (fw : Fw) {m : CanMsg} (h : c.Call m) :
    (sends (canservicesRxTask fw m).2).length = 1 := by
  rcases h.2 with ⟨_, ht⟩ | ⟨ho, ht, he⟩
  · exact rx_answered fw m (.inr ht)
  · exact (rx_dat fw m ht).mpr (.inr ⟨ho, he⟩)

/-- A NAK ends the process. -/
theorem canCb_nak {c : Conman} {m : CanMsg} (ha : c.Answer m) (hack : ¬ m.type = .ack)
    (sendOk : Bool) : ¬ (c.canCb m sendOk).1.helper.alive = true := by
  have hnak : m.type = .nak := ha.2.2.1.resolve_left hack
  have hdat : ¬ (m.object = c.helper.objid ∧ m.type = .dat) := fun hd =>
    absurd (hnak.symm.trans hd.2) (by decide)
  have hdies : ∃ text, c.helper.canCb ⟨m, 0, 0⟩ = ({ c.helper with died := some text }, []) := by
    unfold Helper.canCb
    simp only
    rw [if_pos ⟨ha.1, ha.2.1⟩, if_neg hdat]
    rcases ha.2.2.2 with ho | ho
    · rw [if_pos ⟨ho, .inr hnak⟩]
      exact ⟨_, by unfold Helper.handleSendAck Helper.handleAck; rw [if_pos hnak]⟩
    · have hrecv : ¬ (m.object = objConsolerecv ∧ (m.type = .ack ∨ m.type = .nak)) := fun hr =>
        absurd (ho.symm.trans hr.1) (by decide)
      rw [if_neg hrecv, if_pos ⟨ho, .inr hnak⟩]
      exact ⟨_, by unfold Helper.handleConnectAck Helper.handleAck; rw [if_pos hnak]⟩
  obtain ⟨text, hcb⟩ := hdies
  unfold Conman.canCb
  rw [hcb]
  simp only [true_or, if_true]
  exact fun h => nomatch h

theorem Lively.start (h0 : s.Start) (hpeer : s.conman.helper.dstaddr = s.fw.srcaddr) :
    s.Lively := by
  have hnone : ∀ m ∈ s.toHelper, m.isAnswer = true → s.conman.Answer m := fun m hm =>
    absurd (h0.toHelper ▸ hm) List.not_mem_nil
  obtain ⟨src, dst, sendOk, hconman⟩ := h0.conman
  unfold Conman.consoleConnect Conman.request at hconman
  cases sendOk with
  | true =>
    obtain ⟨h1, h2⟩ := Prod.mk.inj hconman
    refine ⟨Faithful.start h0, hpeer, fun m hm _ => ?_, hnone, fun _ => ?_⟩
    · rw [h2] at hm
      rw [List.mem_singleton.mp hm, h1]
      exact ⟨rfl, .inl ⟨rfl, rfl⟩⟩
    · unfold token watching
      rw [h0.toHelper, h2, h1]
      rfl
  | false =>
    obtain ⟨h1, h2⟩ := Prod.mk.inj hconman
    refine ⟨Faithful.start h0, hpeer, fun m hm => ?_, hnone, fun ha => ?_⟩
    · rw [h2] at hm
      exact absurd hm List.not_mem_nil
    · rw [h1] at ha
      cases ha

/-- Whatever the step: the helper is the same, new requests are calls, new answers answer it. -/
theorem Lively.next (h : s.Lively) (hfaithful : t.Faithful)
    (haddr : t.conman.helper.srcaddr = s.conman.helper.srcaddr ∧
      t.conman.helper.dstaddr = s.conman.helper.dstaddr) (hfw : t.fw.srcaddr = s.fw.srcaddr)
    (hcalls : ∀ m ∈ t.toFw, m.isCall = true → m ∈ s.toFw ∨ s.conman.Call m)
    (hanswers : ∀ m ∈ t.toHelper, m.isAnswer = true → m ∈ s.toHelper ∨ s.conman.Answer m)
    (hkept : t.conman.helper.alive = true → 1 ≤ t.token) : t.Lively where
  faithful := hfaithful
  peer := haddr.2.trans (h.peer.trans hfw.symm)
  calls := fun m hm hc => by
    have hcall := (hcalls m hm hc).elim (fun hs => h.calls m hs hc) id
    exact ⟨hcall.1.trans haddr.1.symm, hcall.2⟩
  answers := fun m hm ha => by
    obtain ⟨hdst, hsrc, hrest⟩ := (hanswers m hm ha).elim (fun hs => h.answers m hs ha) id
    exact ⟨hdst.trans haddr.1.symm, hsrc.trans haddr.2.symm, hrest⟩
  kept := fun ha => Nat.le_antisymm hfaithful.token (hkept ha)

theorem canCb_addr (c : Conman) (m : CanMsg) (sendOk : Bool) :
    (c.canCb m sendOk).1.helper.srcaddr = c.helper.srcaddr ∧
      (c.canCb m sendOk).1.helper.dstaddr = c.helper.dstaddr := by
  have hack : ∀ text, (Helper.handleAck text c.helper m).srcaddr = c.helper.srcaddr ∧
      (Helper.handleAck text c.helper m).dstaddr = c.helper.dstaddr := by
    intro text
    unfold Helper.handleAck
    split <;> exact ⟨rfl, rfl⟩
  have hcb : (c.helper.canCb ⟨m, 0, 0⟩).1.srcaddr = c.helper.srcaddr ∧
      (c.helper.canCb ⟨m, 0, 0⟩).1.dstaddr = c.helper.dstaddr := by
    unfold Helper.canCb
    simp only
    split
    · split
      · unfold Helper.handleRecvDat
        simp only
        split <;> exact ⟨rfl, rfl⟩
      · split
        · exact hack _
        · split
          · exact hack _
          · exact ⟨rfl, rfl⟩
    · exact ⟨rfl, rfl⟩
  unfold Conman.canCb
  simp only
  split <;> exact hcb

theorem token_pos {m : CanMsg} (h : m ∈ s.toFw ∧ m.isCall = true ∨ m ∈ s.toHelper ∧ m.isAnswer = true ∨
    s.conman.helper.stdinWatcher = true) : 1 ≤ s.token := by
  unfold token watching
  rcases h with ⟨hm, hc⟩ | ⟨hm, ha⟩ | hw
  · have hpos := List.countP_pos_iff.mpr ⟨m, hm, hc⟩
    omega
  · have hpos := List.countP_pos_iff.mpr ⟨m, hm, ha⟩
    omega
  · rw [if_pos hw]
    omega

/-- Where the token is. -/
theorem token_cases (h : 1 ≤ s.token) : (∃ m ∈ s.toFw, m.isCall = true) ∨
    (∃ m ∈ s.toHelper, m.isAnswer = true) ∨ s.conman.helper.stdinWatcher = true := by
  unfold token watching at h
  by_cases hw : s.conman.helper.stdinWatcher = true
  · exact .inr (.inr hw)
  rw [if_neg hw] at h
  by_cases hcalls : 0 < s.toFw.countP CanMsg.isCall
  · exact .inl (List.countP_pos_iff.mp hcalls)
  · exact .inr (.inl (List.countP_pos_iff.mp (by omega)))

theorem mem_eraseIdx_of {p : CanMsg → Bool} {l : List CanMsg} {i : Nat} {m m' : CanMsg}
    (hi : l[i]? = some m) (hm : ¬ p m = true) (hm' : m' ∈ l) (hp : p m' = true) :
    m' ∈ l.eraseIdx i :=
  (eq_or_mem_eraseIdx hi hm').resolve_left fun heq => hm (heq ▸ hp)

theorem Lively.stdin (h : s.Lively) (r : ReadResult) (hl : s.conman.helper.alive = true)
    (hw : s.conman.helper.stdinWatcher = true) :
    Lively ({ s with read := s.read ++ r.data }.afterConman (s.conman.stdinCb r true)) := by
  have hfaithful := h.faithful.stdin r true hl hw
  obtain ⟨rfl, hcb⟩ | ⟨data, rfl, _, hhelper, hsent⟩ | ⟨text, hhelper, hsent⟩ :=
    s.conman.stdinCb_cases r true
  · rw [hcb] at hfaithful ⊢
    refine h.next hfaithful ⟨rfl, rfl⟩ rfl (fun m hm _ => .inl ?_) (fun m hm _ => .inl hm) fun _ =>
      token_pos (m := .zero) (.inr (.inr hw))
    exact (List.append_nil s.toFw) ▸ hm
  · refine h.next hfaithful ?_ rfl (fun m hm _ => ?_) (fun m hm _ => .inl hm) fun _ => ?_
    · show (s.conman.stdinCb _ true).1.helper.srcaddr = _ ∧
        (s.conman.stdinCb _ true).1.helper.dstaddr = _
      rw [hhelper]
      exact ⟨rfl, rfl⟩
    · rcases List.mem_append.mp hm with hm | hm
      · exact .inl hm
      · rw [hsent] at hm
        rw [List.mem_singleton.mp hm]
        exact .inr ⟨rfl, .inr ⟨rfl, rfl, rfl⟩⟩
    · refine token_pos (m := s.conman.datMsg data) (.inl ⟨?_, rfl⟩)
      show _ ∈ s.toFw ++ (s.conman.stdinCb _ true).2
      rw [hsent]
      exact List.mem_append_right _ (List.mem_singleton_self _)
  · refine h.next hfaithful ?_ rfl (fun m hm hc => ?_) (fun m hm _ => .inl hm) fun ha => ?_
    · show (s.conman.stdinCb _ true).1.helper.srcaddr = _ ∧
        (s.conman.stdinCb _ true).1.helper.dstaddr = _
      rw [hhelper]
      exact ⟨rfl, rfl⟩
    · rcases List.mem_append.mp hm with hm | hm
      · exact .inl hm
      · rw [(hsent m hm).2] at hc
        exact absurd hc (not_isCall (.inr rfl))
    · have ha : (s.conman.stdinCb r true).1.helper.alive = true := ha
      rw [hhelper] at ha
      cases ha

theorem Lively.deliver (h : s.Lively) {i : Nat} {m : CanMsg} (hi : s.toHelper[i]? = some m)
    (hl : s.conman.helper.alive = true) : Lively ({ s with
      toHelper := s.toHelper.eraseIdx i
      acked := s.acked + if s.conman.isAck m then 1 else 0 }.afterConman
        (s.conman.canCb m true)) := by
  have hrest : ∀ m' ∈ s.toHelper.eraseIdx i, m' ∈ s.toHelper := fun m' hm' =>
    (List.eraseIdx_sublist _ _).subset hm'
  refine h.next (h.faithful.deliver hi true) (canCb_addr s.conman m true) rfl (fun m' hm' hc => ?_)
    (fun m' hm' _ => .inl (hrest m' hm')) fun halive => ?_
  · obtain ⟨_, _, hcb⟩ | ⟨_, haside⟩ := s.conman.canCb_cases m true
    · rw [hcb] at hm'
      exact .inl ((List.append_nil s.toFw) ▸ hm')
    · rcases List.mem_append.mp hm' with hm' | hm'
      · exact .inl hm'
      · have hobj := (haside.sent m' hm').2
        rw [h.faithful.objid] at hobj
        exact absurd hc (not_isCall hobj)
  · obtain ⟨_, _, hcb⟩ | ⟨hno, haside⟩ := s.conman.canCb_cases m true
    · rw [hcb]
      exact token_pos (m := m) (.inr (.inr rfl))
    · -- not an answer: the token is elsewhere
      have hnot : ¬ m.isAnswer = true := fun ha => by
        have hanswer := h.answers m (List.mem_of_getElem? hi) ha
        exact canCb_nak hanswer (fun ht => hno ⟨hanswer, ht⟩) true halive
      obtain ⟨m', hm', hc⟩ | ⟨m', hm', ha⟩ | hw := token_cases (Nat.le_of_eq (h.kept hl).symm)
      · exact token_pos (.inl ⟨List.mem_append_left _ hm', hc⟩)
      · exact token_pos (.inr (.inl ⟨mem_eraseIdx_of hi hnot hm' ha, ha⟩))
      · exact token_pos (m := m) (.inr (.inr (haside.watcher.trans hw)))

theorem Lively.receive (h : s.Lively) {i : Nat} {m : CanMsg} (hi : s.toFw[i]? = some m) :
    (s.received i m).Lively := by
  have hm : m ∈ s.toFw := List.mem_of_getElem? hi
  have hfaithful : (s.received i m).Faithful := by
    by_cases hcall : m.isCall = true
    · exact h.faithful.receive_call hi hcall
    · exact h.faithful.receive_other hcall
  refine h.next hfaithful ⟨rfl, rfl⟩ (canservicesRxTask_step s.fw m).pc.2.2
    (fun m' hm' _ => .inl ((List.eraseIdx_sublist _ _).subset hm')) (fun r hr ha => ?_) fun hl => ?_
  · rcases List.mem_append.mp hr with hr | hr
    · exact .inl hr
    · obtain ⟨hreply, hdst, hsrc, hobj⟩ := rx_form s.fw m hr
      have hcall : m.isCall = true := by
        rw [m.isCall_iff, ← hobj, ← r.isCall_iff]
        exact (r.isAnswer_iff.mp ha).1
      refine .inr ⟨hdst.trans (h.calls m hm hcall).1, hsrc.trans h.peer.symm, hreply, ?_⟩
      rw [hobj]
      exact m.isCall_iff.mp hcall
  · by_cases hcall : m.isCall = true
    · -- the token goes to the answer
      obtain ⟨r, hr⟩ := List.length_eq_one_iff.mp (rx_call s.fw (h.calls m hm hcall))
      have hmem : r ∈ sends (canservicesRxTask s.fw m).2 := hr ▸ List.mem_singleton_self r
      obtain ⟨hreply, _, _, hobj⟩ := rx_form s.fw m hmem
      refine token_pos (.inr (.inl ⟨List.mem_append_right _ hmem, r.isAnswer_iff.mpr ⟨?_, hreply⟩⟩))
      rw [r.isCall_iff, hobj, ← m.isCall_iff]
      exact hcall
    · obtain ⟨m', hm', hc⟩ | ⟨m', hm', ha⟩ | hw := token_cases (Nat.le_of_eq (h.kept hl).symm)
      · exact token_pos (.inl ⟨mem_eraseIdx_of hi hcall hm' hc, hc⟩)
      · exact token_pos (.inr (.inl ⟨List.mem_append_left _ hm', ha⟩))
      · exact token_pos (m := m) (.inr (.inr hw))

/-- Only the firmware and the data of its console task change. -/
theorem Lively.node (h : s.Lively) {fw : Fw} (ms : List CanMsg) (hsrc : fw.srcaddr = s.fw.srcaddr)
    (hfw : ∀ m, fw.task.pc = .built m → m.type = .dat) (hms : ∀ m ∈ ms, m.type = .dat) :
    Lively { s with fw := fw, toHelper := s.toHelper ++ ms } := by
  refine h.next (h.faithful.node fw ms hfw hms) ⟨rfl, rfl⟩ hsrc (fun m hm _ => .inl hm)
    (fun m hm ha => ?_) fun hl => ?_
  · rcases List.mem_append.mp hm with hm | hm
    · exact .inl hm
    · rcases (m.isAnswer_iff.mp ha).2 with ht | ht <;>
        exact absurd ((hms m hm).symm.trans ht) (by decide)
  · obtain ⟨m, hm, hc⟩ | ⟨m, hm, ha⟩ | hw := token_cases (Nat.le_of_eq (h.kept hl).symm)
    · exact token_pos (.inl ⟨hm, hc⟩)
    · exact token_pos (.inr (.inl ⟨List.mem_append_left _ hm, ha⟩))
    · exact token_pos (m := .zero) (.inr (.inr hw))

theorem Lively.quietNode (h : s.Lively) {fw : Fw} (hsrc : fw.srcaddr = s.fw.srcaddr)
    (hfw : ∀ m, fw.task.pc = .built m → m.type = .dat) : Lively { s with fw := fw } := by
  have hnode := h.node [] hsrc hfw fun m hm => absurd hm List.not_mem_nil
  rw [List.append_nil] at hnode
  exact hnode

theorem Lively.step (h : s.Lively) {a : StdinAct} (ha : s.Smooth a) (hs : s.step a = some t) :
    t.Lively := by
  cases a with
  | stdin r sendOk =>
    obtain rfl : sendOk = true := ha
    obtain ⟨⟨hl, hw⟩, ht⟩ := Option.ite_none_right_eq_some.mp hs
    rw [← Option.some.inj ht]
    exact h.stdin r hl hw
  | toHelper i sendOk =>
    obtain rfl : sendOk = true := ha
    obtain ⟨hl, ht⟩ := Option.ite_none_right_eq_some.mp hs
    obtain ⟨m, hm, rfl⟩ := Option.map_eq_some_iff.mp ht
    exact h.deliver hm hl
  | toFw i =>
    obtain ⟨m, hm, rfl⟩ := Option.map_eq_some_iff.mp hs
    exact h.receive hm
  | uart c =>
    rw [← Option.some.inj hs]
    exact h.quietNode rfl h.faithful.task
  | usartTx =>
    rw [← Option.some.inj hs]
    exact h.quietNode rfl h.faithful.task
  | task ev =>
    obtain ⟨⟨fw, e⟩, hr, rfl⟩ := Option.map_eq_some_iff.mp hs
    obtain ⟨hfw, he⟩ := taskStep_data (consoleTask_step hr).2 h.faithful.task
    have hsrc := (consoleTask_console hr).2.1
    cases e with
    | quiet => exact h.quietNode hsrc hfw
    | took bs => exact h.quietNode hsrc hfw
    | sent m => exact h.node [m] hsrc hfw fun m' hm => List.mem_singleton.mp hm ▸ he m rfl
  | timeout => exact absurd ha id
  | recvTimeout sendOk => exact absurd ha id
  | die text => exact absurd ha id
  | loseToHelper i => exact absurd ha id
  | loseToFw i => exact absurd ha id

/-! ## the bus runs empty -/

theorem Delivering.smooth {a : StdinAct} (h : s.Delivering a) : s.Smooth a := by
  cases a with
  | toHelper i sendOk => exact h
  | toFw i => trivial
  | _ => exact absurd h id

theorem cost_append (ms ms' : List CanMsg) : cost (ms ++ ms') = cost ms + cost ms' := by
  unfold cost
  rw [List.length_append, List.countP_append]
  omega

/-- A message is delivered and answered at most once, a reply not at all. -/
theorem cost_delivered {ms out : List CanMsg} {i : Nat} {m : CanMsg} (hi : ms[i]? = some m)
    (hout : out = [] ∨ (¬ m.isReply ∧ ∃ r, out = [r] ∧ r.isReply)) :
    cost (ms.eraseIdx i) + cost out < cost ms := by
  have hlt : i < ms.length := (List.getElem?_eq_some_iff.mp hi).1
  have hlen := List.length_eraseIdx_of_lt hlt
  have hcount := countP_eraseIdx (fun m => decide (¬ m.isReply)) hi
  unfold cost
  rcases hout with rfl | ⟨hm, r, rfl, hr⟩
  · rw [List.length_nil, List.countP_nil]
    omega
  · rw [if_pos (decide_eq_true hm)] at hcount
    have hnone : [r].countP (fun m => decide (¬ m.isReply)) = 0 :=
      List.countP_eq_zero.mpr fun m' hm' hd => of_decide_eq_true hd (List.mem_singleton.mp hm' ▸ hr)
    rw [List.length_singleton, hnone]
    omega

theorem canCb_out (c : Conman) (hl : c.helper.alive = true) (m : CanMsg) :
    (c.canCb m true).2 = [] ∨ (¬ m.isReply ∧ ∃ r, (c.canCb m true).2 = [r] ∧ r.isReply) := by
  have hcb : (c.canCb m true).2 = (c.helper.canCb ⟨m, 0, 0⟩).2 := by
    unfold Conman.canCb
    simp only [or_true, if_true]
  have hsends := Party.handle_sends (.helper c.helper) m
  have hhandle : (Party.handle (.helper c.helper) m).2 = (c.helper.canCb ⟨m, 0, 0⟩).2 := by
    show Prod.snd (if c.helper.alive = true then _ else _) = _
    rw [if_pos hl]
  rw [hhandle, ← hcb] at hsends
  exact hsends

theorem stdin_descends :
    Machine.Descends stdinSession Lively Delivering flight where
  keeps _ _ _ hx ha hs := hx.step ha.smooth hs
  lowers x a y hx ha hs := by
    cases a with
    | toHelper i sendOk =>
      obtain rfl : sendOk = true := ha
      obtain ⟨hl, ht⟩ := Option.ite_none_right_eq_some.mp hs
      obtain ⟨m, hm, rfl⟩ := Option.map_eq_some_iff.mp ht
      have hless := cost_delivered hm (canCb_out x.conman hl m)
      show cost (x.toFw ++ (x.conman.canCb m true).2) + cost (x.toHelper.eraseIdx i) < _
      unfold flight
      rw [cost_append]
      omega
    | toFw i =>
      obtain ⟨m, hm, rfl⟩ := Option.map_eq_some_iff.mp hs
      have hless := cost_delivered hm (Party.handle_sends (.control x.fw) m)
      show cost (x.toFw.eraseIdx i) + cost (x.toHelper ++ sends (canservicesRxTask x.fw m).2) < _
      unfold flight
      rw [cost_append]
      have hsends : (Party.handle (.control x.fw) m).2 = sends (canservicesRxTask x.fw m).2 := rfl
      rw [hsends] at hless
      omega
    | _ => exact absurd ha id

theorem stdin_goes (s : StdinSession) :
    s.Quiet ∨ ∃ a t, Delivering s a ∧ stdinSession.step s a = some t := by
  cases hfw : s.toFw with
  | cons m ms =>
    have hi : s.toFw[0]? = some m := by rw [hfw]; rfl
    exact .inr ⟨.toFw 0, _, trivial, Option.map_eq_some_iff.mpr ⟨m, hi, rfl⟩⟩
  | nil =>
    by_cases hl : s.conman.helper.alive = true
    swap
    · exact .inl ⟨hfw, fun ha => absurd ha hl⟩
    cases hhelper : s.toHelper with
    | nil => exact .inl ⟨hfw, fun _ => hhelper⟩
    | cons m ms =>
      have hi : s.toHelper[0]? = some m := by rw [hhelper]; rfl
      exact .inr ⟨.toHelper 0 true, _, rfl,
        (if_pos hl).trans (Option.map_eq_some_iff.mpr ⟨m, hi, rfl⟩)⟩

/-- What nobody answers any more is the watcher. -/
theorem Lively.quiet (h : s.Lively) (hq : s.Quiet) (hl : s.conman.helper.alive = true) :
    s.conman.helper.stdinWatcher = true ∧ s.accepted = s.read := by
  obtain ⟨m, hm, _⟩ | ⟨m, hm, _⟩ | hw := token_cases (Nat.le_of_eq (h.kept hl).symm)
  · exact absurd (hq.toFw ▸ hm) List.not_mem_nil
  · exact absurd (hq.toHelper hl ▸ hm) List.not_mem_nil
  · exact ⟨hw, h.faithful.idle hl hw⟩

theorem delivering_read {a : StdinAct} (ha : s.Delivering a) (hs : s.step a = some t) :
    t.read = s.read := by
  cases a with
  | toHelper i sendOk =>
    obtain ⟨_, ht⟩ := Option.ite_none_right_eq_some.mp hs
    obtain ⟨m, _, rfl⟩ := Option.map_eq_some_iff.mp ht
    rfl
  | toFw i =>
    obtain ⟨m, _, rfl⟩ := Option.map_eq_some_iff.mp hs
    rfl
  | _ => exact absurd ha id

end

end StdinSession

/-- **The stdin stream does not stall.**  In a run in which nothing is lost, no timer expires, `can_send`
works and the helper does not die of another error, a helper that lives has always exactly one token: it
waits for stdin, or a request or an answer is on the bus.  The bus delivers what is in flight in a
bounded number of steps, and then, if the helper lives, the firmware has accepted everything that was
read, and the helper waits for stdin. -/
theorem stdin_settles {s t u : StdinSession} {as : List StdinAct} (h0 : s.Start)
    (hpeer : s.conman.helper.dstaddr = s.fw.srcaddr)
    (h : stdinSession.Reach StdinSession.Smooth s t)
    (hmoves : stdinSession.Along StdinSession.Delivering t as)
    (hrun : stdinSession.run t as = some u) :
    (t.conman.helper.alive = true → t.token = 1) ∧ as.length + u.flight ≤ t.flight ∧
      (u.Quiet ∨ ∃ a v, StdinSession.Delivering u a ∧ stdinSession.step u a = some v) ∧
      (u.Quiet → u.conman.helper.alive = true →
        u.conman.helper.stdinWatcher = true ∧ u.accepted = t.read) := by
  have ht : t.Lively := h.inv (StdinSession.Lively.start h0 hpeer) fun _ _ _ hx ha hs => hx.step ha hs
  have hreach := Machine.run_reach hmoves hrun
  have hu : u.Lively := StdinSession.stdin_descends.inv ht hreach
  have hread : u.read = t.read := hreach.inv (I := fun x => x.read = t.read) rfl
    fun _ _ _ hx ha hs => (StdinSession.delivering_read ha hs).trans hx
  refine ⟨ht.kept, StdinSession.stdin_descends.length ht hmoves hrun, StdinSession.stdin_goes u,
    fun hq hl => ?_⟩
  obtain ⟨hwatch, haccepted⟩ := hu.quiet hq hl
  exact ⟨hwatch, haccepted.trans hread⟩

/-- The connection is made, and 3 bytes are on their way. -/
def threeBytesRead : List StdinAct :=
  [.toFw 0, .toHelper 0 true, .stdin (.bytes (.ofList [104, 105, 10])) true]

theorem stdin_settles_three : ∃ t u, stdinSession.run stdinBoot threeBytesRead = some t ∧
    stdinSession.run t [.toFw 0, .toHelper 0 true] = some u ∧ t.flight = 2 ∧ u.Quiet ∧
    u.conman.helper.stdinWatcher = true ∧ u.accepted = t.read ∧ t.read = [104, 105, 10] := by
  have hstart : (stdinSession.run stdinBoot threeBytesRead).map (fun t => (t.flight, t.read)) =
      some (2, [104, 105, 10]) := by decide +kernel
  have hend : ((stdinSession.run stdinBoot threeBytesRead).bind fun t =>
      (stdinSession.run t [.toFw 0, .toHelper 0 true]).map fun u =>
        (u.toFw, u.toHelper, u.conman.helper.alive)) = some ([], [], true) := by decide +kernel
  obtain ⟨t, ht, hend⟩ := Option.bind_eq_some_iff.mp hend
  obtain ⟨u, hu, hend⟩ := Option.map_eq_some_iff.mp hend
  rw [ht, Option.map_some, Option.some.injEq, Prod.mk.injEq] at hstart
  rw [Prod.mk.injEq, Prod.mk.injEq] at hend
  have hquiet : u.Quiet := ⟨hend.1, fun _ => hend.2.1⟩
  have htask : ∀ m, stdinBoot.fw.task.pc = .built m → m.type = .dat := fun m hm => nomatch hm
  have hinit : stdinBoot.Start := ⟨⟨1, 16, true, rfl⟩, htask, rfl, rfl, rfl, rfl, rfl⟩
  have hsmooth : stdinSession.Along StdinSession.Smooth stdinBoot threeBytesRead := by
    decide +kernel
  have hmoves : stdinSession.Along StdinSession.Delivering t [.toFw 0, .toHelper 0 true] :=
    ⟨trivial, fun _ _ => ⟨rfl, fun _ _ => trivial⟩⟩
  obtain ⟨_, _, _, hdone⟩ := stdin_settles hinit rfl (Machine.run_reach hsmooth ht) hmoves hu
  obtain ⟨hwatch, haccepted⟩ := hdone hquiet hend.2.2
  exact ⟨t, u, ht, hu, hstart.1, hquiet, hwatch, haccepted, hstart.2⟩

end Bramble
