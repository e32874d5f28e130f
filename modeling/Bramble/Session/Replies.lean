import Bramble.Firmware.RxTask
import Bramble.Helper.Console
import Bramble.CanId

/-!
# Replies

Who answers what.  `canservices_rx_task` hands at most one message to `canbus_send` for each message
it receives, and that one is an ACK or a NAK; `can_cb` of a helper sends at most an ACK.  Neither
answers an ACK or a NAK.

* `rx_answers`        how many messages the rx task sends, by type and object;
* `replyNet`          the machine: any number of control processors and helpers on one bus;
* `reply_discipline`  the number and the form of the replies, and the bound on a run: replies cause
                      no replies.
-/

namespace Bramble

/-! ## one message at a control processor -/

def CanMsg.isReply (m : CanMsg) : Prop := m.type = .ack ∨ m.type = .nak

instance (m : CanMsg) : Decidable m.isReply := inferInstanceAs (Decidable (_ ∨ _))

/-- A DAT message is refused: it is not for the console, there is no connection, or the transmit
buffer has no room for it. -/
def Fw.refusesDat (fw : Fw) (m : CanMsg) : Prop :=
  m.object ≠ objConsolerecv ∨ fw.console.connected = false ∨
    (fw.serial.serialSend m.data.bytes).2 < m.dlen

theorem mem_sends {es : List Eff} {r : CanMsg} : r ∈ sends es ↔ .send r ∈ es := by
  rw [sends, List.mem_filterMap]
  constructor
  · intro h
    obtain ⟨e, he, hr⟩ := h
    cases e with
    | send m =>
      cases hr
      exact he
    | serialSend bs => cases hr
    | notifyGive => cases hr
  · intro h
    exact ⟨_, h, rfl⟩

/-- the form of a reply of `fw` to `m` -/
def Fw.RepliesTo (fw : Fw) (m r : CanMsg) : Prop :=
  r.isReply ∧ r.dst = m.src ∧ r.src = fw.srcaddr ∧ r.object = m.object

theorem Replies.form {fw : Fw} {m r : CanMsg} {es : List Eff} (h : Replies fw m es)
    (hr : r ∈ sends es) : fw.RepliesTo m r := by
  obtain ⟨r', he, hform⟩ := h _ (mem_sends.mp hr)
  cases he
  exact hform

theorem RxStep.form {fw fw' : Fw} {m r : CanMsg} {es : List Eff} (h : RxStep fw m fw' es)
    (hr : r ∈ sends es) : fw.RepliesTo m r := by
  cases h with
  | conn o es _ _ he => exact he.form hr
  | disc es _ he => exact he.form hr
  | recv es _ _ _ he => exact he.form hr
  | give _ _ _ => exact absurd hr List.not_mem_nil
  | other power es he _ _ _ _ => exact he.form hr

/-- the message of a handler is answered, unless it asks for no answer -/
def Answered (m : CanMsg) (es : List Eff) : Prop :=
  (sends es).length = if m.type = .wna then 0 else 1

section
variable (fw : Fw) (m : CanMsg)

theorem sendNak_answered : Answered m (sendNak fw m) := by
  unfold Answered sendNak
  split <;> rfl

theorem ack_answered {m r : CanMsg} (h : m.type ≠ .wna) : Answered m [.send r] := by
  rw [Answered, if_neg h]
  rfl

theorem echo_answered : Answered m (canservicesEcho fw m).2 := by
  unfold canservicesEcho
  split
  · exact sendNak_answered fw m
  · rename_i ht
    exact ack_answered (by rw [not_not.mp ht]; decide)

theorem power_answered : Answered m (canservicesPower fw m).2 := by
  unfold canservicesPower
  split
  · rename_i ht
    have hne : m.type ≠ .wna := by rw [ht]; decide
    split
    · exact ack_answered hne
    · exact ack_answered hne
    · exact sendNak_answered fw m
  · rename_i ht
    exact ack_answered (by rw [ht]; decide)
  · exact sendNak_answered fw m

theorem shutdown_answered : Answered m (canservicesShutdown fw m).2 := by
  unfold canservicesShutdown
  split
  · rename_i ht
    split
    · exact sendNak_answered fw m
    · exact ack_answered (by rw [ht]; decide)
  · rename_i ht
    exact ack_answered (by rw [ht]; decide)
  · exact sendNak_answered fw m

theorem consoleconn_answered : Answered m (canservicesConsoleconn fw m).2 := by
  unfold canservicesConsoleconn
  split
  · exact sendNak_answered fw m
  · rename_i ht
    split
    · exact ack_answered (by rw [not_not.mp ht]; decide)
    · exact sendNak_answered fw m

theorem consoledisc_answered : Answered m (canservicesConsoledisc fw m).2 := by
  unfold canservicesConsoledisc
  split
  · exact sendNak_answered fw m
  · rename_i ht
    split
    · split
      · exact sendNak_answered fw m
      · exact ack_answered (by rw [not_not.mp ht]; decide)
    · exact sendNak_answered fw m

theorem consolerecv_answered (ht : m.type ≠ .dat) : Answered m (canservicesConsolerecv fw m).2 := by
  unfold canservicesConsolerecv
  rw [if_pos ht]
  exact sendNak_answered fw m

/-- console input is answered when it is refused or ends a burst -/
theorem consolerecv_dat (ht : m.type = .dat) :
    (sends (canservicesConsolerecv fw m).2).length =
      if fw.console.connected = false ∨ (fw.serial.serialSend m.data.bytes).2 < m.dlen ∨
        m.eot = true then 1 else 0 := by
  have hnak : ∀ fw', (sends (sendNak fw' m)).length = 1 := by
    intro fw'
    have h := sendNak_answered fw' m
    rwa [Answered, ht] at h
  unfold canservicesConsolerecv
  rw [if_neg (not_not.mpr ht)]
  by_cases hc : fw.console.connected = false
  · rw [if_pos hc, if_pos (.inl hc)]
    exact hnak fw
  · rw [if_neg hc]
    by_cases hn : (fw.serial.serialSend m.data.bytes).2 < m.dlen
    · simp only [if_pos hn, if_pos (Or.inr (Or.inl hn) : _ ∨ _ ∨ m.eot = true)]
      exact hnak _
    · simp only [if_neg hn]
      by_cases he : m.eot = true
      · rw [if_pos he, if_pos (.inr (.inr he))]
        rfl
      · rw [if_neg he, if_neg (by grind)]
        rfl

theorem dispatch_answered (h : m.object = objConsolerecv → m.type ≠ .dat) :
    Answered m (requestDispatch fw m).2 := by
  unfold requestDispatch
  split
  · exact echo_answered fw m
  · split
    · exact power_answered fw m
    · split
      · exact consoleconn_answered fw m
      · split
        · exact consoledisc_answered fw m
        · split
          · rename_i ho
            exact consolerecv_answered fw m (h ho)
          · split
            · exact shutdown_answered fw m
            · exact sendNak_answered fw m

theorem rx_request (ht : m.type = .ro ∨ m.type = .wo ∨ m.type = .wna ∨ m.type = .dat) :
    canservicesRxTask fw m = requestDispatch fw m := by
  unfold canservicesRxTask
  rcases ht with ht | ht | ht | ht <;> rw [ht]

theorem rx_answered (ht : m.type = .ro ∨ m.type = .wo) :
    (sends (canservicesRxTask fw m).2).length = 1 := by
  have hne : m.type ≠ .dat ∧ m.type ≠ .wna := by
    rcases ht with ht | ht <;> rw [ht] <;> decide
  have h := dispatch_answered fw m fun _ => hne.1
  rw [Answered, if_neg hne.2] at h
  rw [rx_request fw m (by tauto)]
  exact h

theorem rx_dat (ht : m.type = .dat) : (sends (canservicesRxTask fw m).2).length = 1 ↔
    fw.refusesDat m ∨ (m.object = objConsolerecv ∧ m.eot = true) := by
  rw [rx_request fw m (by tauto)]
  by_cases ho : m.object = objConsolerecv
  · have hrecv : requestDispatch fw m = canservicesConsolerecv fw m := by
      unfold requestDispatch
      rw [ho]
      rfl
    rw [hrecv, consolerecv_dat fw m ht, Fw.refusesDat]
    grind
  · have h := dispatch_answered fw m fun ho' => absurd ho' ho
    rw [Answered, ht] at h
    exact iff_of_true h (.inl (.inl ho))

theorem rx_le_one : (sends (canservicesRxTask fw m).2).length ≤ 1 := by
  by_cases hreq : m.type = .ro ∨ m.type = .wo ∨ m.type = .wna ∨ m.type = .dat
  · rw [rx_request fw m hreq]
    by_cases h : m.object = objConsolerecv → m.type ≠ .dat
    · rw [dispatch_answered fw m h]
      split <;> omega
    · push Not at h
      have hrecv : requestDispatch fw m = canservicesConsolerecv fw m := by
        unfold requestDispatch
        rw [h.1]
        rfl
      rw [hrecv, consolerecv_dat fw m h.2]
      split <;> omega
  · unfold canservicesRxTask
    cases ht : m.type with
    | ack =>
      simp only
      split <;> exact Nat.zero_le 1
    | nak | sig | unassigned => exact Nat.zero_le 1
    | ro | wo | wna | dat => rw [ht] at hreq; tauto

theorem rx_silent (ht : m.type = .wna ∨ m.type = .ack ∨ m.type = .nak ∨ m.type = .sig ∨
    m.type = .unassigned) : sends (canservicesRxTask fw m).2 = [] := by
  rcases ht with ht | ht
  · have h := dispatch_answered fw m fun _ => by rw [ht]; decide
    rw [Answered, if_pos ht] at h
    rw [rx_request fw m (by tauto)]
    exact List.length_eq_zero_iff.mp h
  · unfold canservicesRxTask
    rcases ht with ht | ht | ht | ht
    · rw [ht]
      simp only
      split <;> rfl
    · rw [ht]; rfl
    · rw [ht]; rfl
    · rw [ht]; rfl

theorem rx_form {r : CanMsg} (hr : r ∈ sends (canservicesRxTask fw m).2) : fw.RepliesTo m r :=
  (canservicesRxTask_step fw m).form hr

end

/-! ## the network -/

/-- what `can_cb` and the rx task have in common -/
inductive Party where
  | control (fw : Fw)
  | helper (h : Helper)

/-- `CANMSG_ADDR_BROADCAST` -/
def addrBroadcast : Addr := 0x0f

namespace Party

/-- The filters: a control processor has one, a helper two. -/
def accepts : Party → CanMsg → Prop
  | .control fw, m => (dstFilter fw.srcaddr).accepts (idEncode m)
  | .helper h, m => (peerFilter h.dstaddr h.srcaddr).accepts (idEncode m) ∨
      (dstFilter addrBroadcast).accepts (idEncode m)

instance (p : Party) (m : CanMsg) : Decidable (p.accepts m) :=
  match p with
  | .control _ => inferInstanceAs (Decidable (CanFilter.accepts _ _))
  | .helper _ => inferInstanceAs (Decidable (_ ∨ _))

/-- one received message: the new state and the messages sent -/
def handle : Party → CanMsg → Party × List CanMsg
  | .control fw, m =>
    let r := canservicesRxTask fw m
    (.control r.1, sends r.2)
  | .helper h, m =>
    if h.alive then
      let r := h.canCb ⟨m, 0, 0⟩
      (.helper r.1, r.2)
    else (.helper h, [])

theorem canCb_sends (h : Helper) (f : Frame) :
    (h.canCb f).2 = [] ∨ (f.msg.type = .dat ∧ ∃ r, (h.canCb f).2 = [r] ∧ r.type = .ack) := by
  unfold Helper.canCb
  simp only
  split
  · split
    · rename_i hdat
      unfold Helper.handleRecvDat
      simp only
      split
      · exact .inr ⟨hdat.2, _, rfl, rfl⟩
      · exact .inl rfl
    · split
      · exact .inl rfl
      · split <;> exact .inl rfl
  · exact .inl rfl

theorem handle_sends (p : Party) (m : CanMsg) :
    (p.handle m).2 = [] ∨ (¬ m.isReply ∧ ∃ r, (p.handle m).2 = [r] ∧ r.isReply) := by
  cases p with
  | control fw =>
    show sends _ = [] ∨ (_ ∧ ∃ r, sends _ = [r] ∧ _)
    obtain h | ⟨r, h⟩ : sends (canservicesRxTask fw m).2 = [] ∨
        ∃ r, sends (canservicesRxTask fw m).2 = [r] := by
      have hle := rx_le_one fw m
      match hs : sends (canservicesRxTask fw m).2 with
      | [] => exact .inl rfl
      | [r] => exact .inr ⟨r, rfl⟩
      | _ :: _ :: _ => rw [hs] at hle; simp at hle
    · exact .inl h
    · refine .inr ⟨fun hm => ?_, r, h, (rx_form fw m (h ▸ List.mem_singleton_self r)).1⟩
      have hs := rx_silent fw m (by unfold CanMsg.isReply at hm; tauto)
      rw [h] at hs
      cases hs
  | helper h =>
    by_cases ha : h.alive = true
    · have he : (handle (.helper h) m).2 = (h.canCb ⟨m, 0, 0⟩).2 := by
        show Prod.snd (if h.alive = true then _ else _) = _
        rw [if_pos ha]
      rw [he]
      obtain hc | ⟨ht, r, hc, hr⟩ := canCb_sends h ⟨m, 0, 0⟩
      · exact .inl hc
      · refine .inr ⟨fun hm => ?_, r, hc, .inl hr⟩
        rw [CanMsg.isReply, show m.type = .dat from ht] at hm
        rcases hm with hm | hm <;> cases hm
    · left
      show Prod.snd (if h.alive = true then _ else _) = _
      rw [if_neg ha]

end Party

/-- Any number of control processors and helpers. -/
structure ReplyNet (n : Nat) where
  party : Fin n → Party
  /-- sent and not yet handled: the receiver and the message -/
  flight : List (Fin n × CanMsg)
  /-- every reply sent, after the message it answers -/
  log : List (CanMsg × CanMsg)

inductive ReplyAct (n : Nat) where
  /-- the receiver of the `k`-th message in flight handles it; what it sends reaches `reach` -/
  | handle (k : Nat) (reach : Fin n → Bool)
  /-- anybody sends a message that is not a reply to another one -/
  | post (m : CanMsg) (reach : Fin n → Bool)
  /-- whatever else changes a party: its other tasks, timers, callbacks -/
  | other (i : Fin n) (p : Party)

namespace ReplyNet
variable {n : Nat}

/-- the copies of a message that are delivered -/
def copies (s : ReplyNet n) (reach : Fin n → Bool) (m : CanMsg) : List (Fin n × CanMsg) :=
  ((List.finRange n).filter fun i => reach i && decide ((s.party i).accepts m)).map fun i => (i, m)

/-- after the receiver of the `k`-th message `f` in flight has handled it -/
def handled (s : ReplyNet n) (reach : Fin n → Bool) (k : Nat) (f : Fin n × CanMsg) : ReplyNet n :=
  let r := (s.party f.1).handle f.2
  { party := Function.update s.party f.1 r.1
    flight := s.flight.eraseIdx k ++ r.2.flatMap (s.copies reach)
    log := s.log ++ r.2.map fun reply => (f.2, reply) }

def step (s : ReplyNet n) : ReplyAct n → Option (ReplyNet n)
  | .handle k reach => s.flight[k]?.map (s.handled reach k)
  | .post m reach => some { s with flight := s.flight ++ s.copies reach m }
  | .other i p => some { s with party := Function.update s.party i p }

/-- copies in flight of messages that are not replies -/
def requests (s : ReplyNet n) : Nat := s.flight.countP fun f => decide (¬ f.2.isReply)

end ReplyNet

def replyNet (n : Nat) : Machine (ReplyNet n) (ReplyAct n) := ⟨ReplyNet.step⟩

def ReplyAct.handles {n : Nat} : ReplyAct n → Nat
  | .handle _ _ => 1
  | _ => 0

def ReplyAct.posts {n : Nat} : ReplyAct n → Nat
  | .post _ _ => 1
  | _ => 0

/-- what a run can still cost: each copy of a request may be answered to everybody -/
def ReplyNet.potential {n : Nat} (s : ReplyNet n) : Nat := s.flight.length + n * s.requests

namespace ReplyNet
variable {n : Nat} {s t : ReplyNet n} {a : ReplyAct n}

theorem copies_length (s : ReplyNet n) (reach : Fin n → Bool) (m : CanMsg) :
    (s.copies reach m).length ≤ n := by
  rw [copies, List.length_map]
  calc _ ≤ (List.finRange n).length := List.length_filter_le _ _
    _ = n := List.length_finRange

theorem copies_requests (s : ReplyNet n) (reach : Fin n → Bool) {m : CanMsg} (h : m.isReply) :
    (s.copies reach m).countP (fun f => decide (¬ f.2.isReply)) = 0 := by
  rw [List.countP_eq_zero]
  intro f hf
  obtain ⟨i, _, rfl⟩ := List.mem_map.mp hf
  simpa using h

/-- What one step does to the messages in flight and to the log. -/
theorem step_cases (h : (replyNet n).step s a = some t) :
    (a.handles = 1 ∧ a.posts = 0 ∧ t.flight.length + 1 = s.flight.length ∧
      t.requests ≤ s.requests ∧ t.log = s.log) ∨
    (∃ m r : CanMsg, a.handles = 1 ∧ a.posts = 0 ∧ ¬ m.isReply ∧ r.isReply ∧
      t.flight.length + 1 ≤ s.flight.length + n ∧ t.requests + 1 = s.requests ∧
      t.log = s.log ++ [(m, r)]) ∨
    (a.handles = 0 ∧ a.posts = 1 ∧ t.flight.length ≤ s.flight.length + n ∧
      t.requests ≤ s.requests + n ∧ t.log = s.log) ∨
    (a.handles = 0 ∧ a.posts = 0 ∧ t.flight = s.flight ∧ t.log = s.log) := by
  cases a with
  | handle k reach =>
    obtain ⟨f, hf, rfl⟩ := Option.map_eq_some_iff.mp h
    obtain ⟨hk, rfl⟩ := List.getElem?_eq_some_iff.mp hf
    have hperm := List.getElem_cons_eraseIdx_perm hk
    have hlen : (s.flight.eraseIdx k).length + 1 = s.flight.length := hperm.length_eq
    have hcount : s.requests = (s.flight.eraseIdx k).countP (fun f => decide (¬ f.2.isReply)) +
        if ¬ s.flight[k].2.isReply then 1 else 0 := by
      rw [requests, ← hperm.countP_eq, List.countP_cons]
      simp only [decide_eq_true_eq]
    obtain hnone | ⟨hm, r, hr, hrep⟩ := (s.party s.flight[k].1).handle_sends s.flight[k].2
    · refine .inl ⟨rfl, rfl, ?_, ?_, ?_⟩
      · simp only [handled, hnone, List.flatMap_nil, List.append_nil]
        exact hlen
      · simp only [handled, requests, hnone, List.flatMap_nil, List.append_nil]
        rw [requests] at hcount
        omega
      · simp only [handled, hnone, List.map_nil, List.append_nil]
    · have hcopies := copies_length s reach r
      refine .inr (.inl ⟨s.flight[k].2, r, rfl, rfl, hm, hrep, ?_, ?_, ?_⟩)
      · simp only [handled, hr, List.flatMap_cons, List.flatMap_nil, List.append_nil,
          List.length_append]
        omega
      · rw [if_pos hm] at hcount
        simp only [handled, requests, hr, List.flatMap_cons, List.flatMap_nil, List.append_nil,
          List.countP_append, copies_requests s reach hrep]
        rw [requests] at hcount
        omega
      · simp only [handled, hr, List.map_cons, List.map_nil]
  | post m reach =>
    cases h
    refine .inr (.inr (.inl ⟨rfl, rfl, ?_, ?_, rfl⟩))
    · rw [List.length_append]
      have := copies_length s reach m
      omega
    · show (s.flight ++ _).countP _ ≤ _
      rw [List.countP_append]
      have h1 := copies_length s reach m
      have h2 : (s.copies reach m).countP (fun f => decide (¬ f.2.isReply)) ≤ _ :=
        List.countP_le_length
      show s.requests + _ ≤ _
      omega
  | other i p =>
    cases h
    exact .inr (.inr (.inr ⟨rfl, rfl, rfl, rfl⟩))

/-- Every step pays for itself: a handled message out of the potential, a reply out of a request. -/
theorem step_potential (h : (replyNet n).step s a = some t) :
    a.handles + t.potential ≤ s.potential + a.posts * (n + n * n) ∧
      t.log.length + t.requests ≤ s.log.length + s.requests + a.posts * n := by
  unfold potential
  obtain ⟨h1, h2, h3, h4, h5⟩ | ⟨m, r, h1, h2, _, _, h3, h4, h5⟩ | ⟨h1, h2, h3, h4, h5⟩ |
    ⟨h1, h2, h3, h4⟩ := step_cases h
  · have hmul := Nat.mul_le_mul_left n h4
    rw [h1, h2, h5]
    omega
  · have hmul : n * s.requests = n * t.requests + n := by rw [← h4, Nat.mul_succ]
    rw [h1, h2, h5, List.length_append, List.length_singleton]
    omega
  · have hmul : n * t.requests ≤ n * s.requests + n * n := by
      rw [← Nat.mul_add]
      exact Nat.mul_le_mul_left n h4
    rw [h1, h2, h5]
    omega
  · rw [h1, h2, h3, h4, requests, requests, h3]
    omega

/-- every entry of the log is a reply to a message that is not one -/
def Caused (s : ReplyNet n) : Prop := ∀ e ∈ s.log, ¬ e.1.isReply ∧ e.2.isReply

theorem Caused.step (hs : s.Caused) (h : (replyNet n).step s a = some t) : t.Caused := by
  unfold Caused
  obtain ⟨_, _, _, _, hlog⟩ | ⟨m, r, _, _, hm, hr, _, _, hlog⟩ | ⟨_, _, _, _, hlog⟩ |
    ⟨_, _, _, hlog⟩ := step_cases h
  · rw [hlog]; exact hs
  · rw [hlog]
    intro e he
    rcases List.mem_append.mp he with he | he
    · exact hs e he
    · rw [List.mem_singleton.mp he]
      exact ⟨hm, hr⟩
  · rw [hlog]; exact hs
  · rw [hlog]; exact hs

end ReplyNet

/-- **Reply discipline.**  One reply to RO and WO, one to DAT when it is refused or is console input
with eot, none to anything else; a reply is an ACK or a NAK, to the sender, from this node, for the
same object.  On a bus with any parties and any messages in flight, replies answer messages that are
no replies, so the number of replies, and of messages handled, is bounded by what is in flight at the
start and what is posted since. -/
theorem reply_discipline :
    (∀ (fw : Fw) (m : CanMsg),
      (sends (canservicesRxTask fw m).2).length ≤ 1 ∧
      (m.type = .ro ∨ m.type = .wo → (sends (canservicesRxTask fw m).2).length = 1) ∧
      (m.type = .dat → ((sends (canservicesRxTask fw m).2).length = 1 ↔
        fw.refusesDat m ∨ (m.object = objConsolerecv ∧ m.eot = true))) ∧
      (m.type = .wna ∨ m.type = .ack ∨ m.type = .nak ∨ m.type = .sig ∨ m.type = .unassigned →
        sends (canservicesRxTask fw m).2 = []) ∧
      ∀ r ∈ sends (canservicesRxTask fw m).2, fw.RepliesTo m r) ∧
    (∀ (p : Party) (m : CanMsg), m.isReply → (p.handle m).2 = []) ∧
    (∀ (n : Nat) (s t : ReplyNet n) (as : List (ReplyAct n)),
      (replyNet n).run s as = some t → s.log = [] →
      (∀ e ∈ t.log, ¬ e.1.isReply ∧ e.2.isReply) ∧
      t.log.length ≤ s.requests + (as.map ReplyAct.posts).sum * n ∧
      (as.map ReplyAct.handles).sum ≤
        s.flight.length + n * s.requests + (as.map ReplyAct.posts).sum * (n + n * n)) := by
  refine ⟨fun fw m => ⟨rx_le_one fw m, rx_answered fw m, rx_dat fw m, rx_silent fw m,
    fun r hr => rx_form fw m hr⟩, fun p m hm => ?_, fun n s t as h hlog => ⟨?_, ?_, ?_⟩⟩
  · obtain hnone | ⟨hno, _⟩ := p.handle_sends m
    · exact hnone
    · exact absurd hm hno
  · refine (Machine.run_free h).inv (I := ReplyNet.Caused) ?_ fun x a y hx _ hs => hx.step hs
    intro e he
    rw [hlog] at he
    exact absurd he List.not_mem_nil
  · have hcost := Machine.run_cost (fun s => s.log.length + s.requests) (fun _ => 0)
      (fun a => a.posts * n)
      (fun x a y hs => by
        have := (ReplyNet.step_potential hs).2
        omega) h
    rw [List.sum_map_mul_right] at hcost
    simp only [hlog, List.length_nil] at hcost
    omega
  · have hcost := Machine.run_cost ReplyNet.potential ReplyAct.handles
      (fun a => a.posts * (n + n * n))
      (fun x a y hs => (ReplyNet.step_potential hs).1) h
    rw [List.sum_map_mul_right, ReplyNet.potential, ReplyNet.potential] at hcost
    omega

/-- The nodes 16 and 17, and a request of the second one. -/
def powerAsked : ReplyNet 2 where
  party := fun i => .control (Fw.init (if i = 0 then 16 else 17))
  flight := [(0, { CanMsg.zero with src := 17, dst := 16, type := .ro, object := objPower })]
  log := []

/-- Everything that is sent reaches everybody; two messages are handled. -/
def askedAndTold : List (ReplyAct 2) := [.handle 0 fun _ => true, .handle 0 fun _ => true]

/-- The answer is not answered. -/
theorem reply_discipline_two : ∃ t, (replyNet 2).run powerAsked askedAndTold = some t ∧
    t.flight = [] ∧ t.log.length = 1 ∧ (∀ e ∈ t.log, ¬ e.1.isReply ∧ e.2.isReply) ∧
    t.log.length ≤ powerAsked.requests ∧ 2 ≤ 1 + 2 * powerAsked.requests := by
  have hend : ((replyNet 2).run powerAsked askedAndTold).map (fun t => (t.flight, t.log.length)) =
      some ([], 1) := by decide +kernel
  obtain ⟨t, ht, hend⟩ := Option.map_eq_some_iff.mp hend
  obtain ⟨hflight, hlog⟩ := Prod.mk.inj hend
  obtain ⟨hcaused, hlength, hhandles⟩ := reply_discipline.2.2 2 powerAsked t askedAndTold ht rfl
  exact ⟨t, ht, hflight, hlog, hcaused, hlength, hhandles⟩

end Bramble
