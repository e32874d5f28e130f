import Bramble.Session.Stream
import Bramble.Lib.Progress

/-!
# The stream comes to rest

Without timeouts and without new bytes from the Pi, the firmware, the bus and the helper have a
bounded amount of work, some of them can go on until it is done, and then stdout has every byte that
`serialrxq` accepted: the 500 ms wait for an ACK never has to expire.

* `Continued`        bytes wait for the task in the middle of a burst;
* `Flowing`          the invariant of the runs without timeouts;
* `Session.work`     the rank;
* `stream_settles`   the work is bounded, never stuck before it is done, and then complete.
-/

namespace Bramble
open Session

/-- In a burst that has not ended, the task has bytes in hand or in `serialrxq`. -/
structure Continued (fw : Fw) (cur : List Frame) : Prop where
  recv : fw.task.pc = .recv → cur ≠ [] → fw.serial.rxq ≠ []
  built : ∀ m, fw.task.pc = .built m → m.eot = false → fw.serial.rxq ≠ []

def Flowing (s : Session) : Prop :=
  ∃ old cur, Data s old cur ∧ Proper s ∧ Paired s old cur ∧ Continued s.fw cur

namespace Session

/-- A step of the task that does more than find `serialrxq` empty, or a delivery. -/
def Moving (s : Session) : SessionAct → Prop
  | .task => ¬ (s.fw.task.pc = .recv ∧ s.fw.serial.rxq = [])
  | .toHelper _ | .toFw _ => True
  | _ => False

instance (s : Session) : ∀ a, Decidable (Moving s a)
  | .task => inferInstanceAs (Decidable (¬ _))
  | .toHelper _ | .toFw _ => inferInstanceAs (Decidable True)
  | .uart _ | .ackTimeout | .recvTimeout => inferInstanceAs (Decidable False)

/-- Nothing is under way. -/
structure Settled (s : Session) : Prop where
  pc : s.fw.task.pc = .recv
  rxq : s.fw.serial.rxq = []
  toHelper : s.toHelper = []
  toFw : s.toFw = []

end Session

/-- steps to the end of the burst, of the message in hand -/
def TaskPc.work : TaskPc → Nat
  | .recv => 0
  | .wait => 1
  | .built _ => 4
  | .named .. => 5
  | .addressed .. => 6
  | .got _ => 7

/-- each byte may become a message of its own, and a burst of its own -/
def Session.work (s : Session) : Nat :=
  8 * s.fw.serial.rxq.length + s.fw.task.pc.work + 2 * s.toHelper.length + s.toFw.length

/-! ## the invariant -/

section
variable {s t : Session} {old cur : List Frame}

theorem Start.flowing (h : s.Start) : Flowing s := by
  have hnd : ¬ Done s [] := fun hd => Bool.false_ne_true hd.1
  refine ⟨[], [], Start.data h, ?_, ⟨fun hd => absurd hd hnd, fun _ => ⟨h.toFw, by rw [h.task]⟩,
    fun hd => absurd hd hnd, fun _ => by rw [h.acksOut]; rfl⟩, fun _ hne => absurd rfl hne, ?_⟩
  · intro p hp
    rw [h.toFw] at hp
    cases hp
  · intro m hm
    rw [h.task] at hm
    cases hm

/-- a step of the task: inside a message, the send, the end of the wait -/
theorem task_cases (hs : s.step .task = some t) :
    (s.fw.task.pc ≠ .wait ∧ ∀ m, s.fw.task.pc ≠ .built m) ∨
      (∃ m, s.fw.task.pc = .built m ∧ t = s.afterSend m) ∨
      (s.fw.task.pc = .wait ∧ 0 < s.fw.task.notify ∧ t = { s with fw := s.fw.endWait }) := by
  obtain ⟨⟨fw, e⟩, hstep, rfl⟩ := Option.map_eq_some_iff.mp hs
  cases (consoleTask_step hstep).2 with
  | send m hpc => exact .inr (.inl ⟨m, hpc, rfl⟩)
  | notified hpc hn => exact .inr (.inr ⟨hpc, hn, rfl⟩)
  | recv hpc => exact .inl ⟨by simp [hpc], by simp [hpc]⟩
  | addr d hpc => exact .inl ⟨by simp [hpc], by simp [hpc]⟩
  | object d a hpc => exact .inl ⟨by simp [hpc], by simp [hpc]⟩
  | build d a o hpc => exact .inl ⟨by simp [hpc], by simp [hpc]⟩

/-- a step of the task that sends nothing and leaves no wait -/
theorem Data.quiet_task (h : Data s old cur) (hp : Proper s) (hs : s.step .task = some t)
    (hw : s.fw.task.pc ≠ .wait) (hb : ∀ m, s.fw.task.pc ≠ .built m) :
    Data t old cur ∧ t.fw.task.notify = s.fw.task.notify ∧ t.toHelper = s.toHelper ∧
      t.toFw = s.toFw ∧ t.acksOut = s.acksOut ∧ t.helper = s.helper := by
  cases h.moves hp (by simp) hs with
  | quiet fw taken hn _ hq => exact ⟨h.of_outbound hq, hn, rfl, rfl, rfl, rfl⟩
  | send m hpc => exact absurd hpc (hb m)
  | leave hl _ => exact absurd hl.1 hw

theorem Paired.congr (h : Paired s old cur) (hn : t.fw.task.notify = s.fw.task.notify)
    (hh : t.toHelper = s.toHelper) (hf : t.toFw = s.toFw) (ha : t.acksOut = s.acksOut) :
    Paired t old cur := by
  have hdone : Done t cur ↔ Done s cur := by
    unfold Done
    rw [hh]
  refine ⟨fun hd => ?_, fun hd => ?_, fun hd => ?_, fun hd => ?_⟩
  · rw [hf, hn]
    exact h.pending (hdone.mp hd)
  · rw [hf, hn]
    exact h.none (mt hdone.mpr hd)
  · rw [ha]
    exact h.acked (hdone.mp hd)
  · rw [ha]
    exact h.unacked (mt hdone.mpr hd)

theorem Proper.congr (h : Proper s) (hf : t.toFw = s.toFw) (hh : t.helper = s.helper) :
    Proper t := by
  unfold Proper
  rw [hf, hh]
  exact h

theorem usart1IsrRx_ne (serial : Serial) (c : UInt8) (h : serial.rxq ≠ []) :
    (serial.usart1IsrRx c).rxq ≠ [] := by
  unfold Serial.usart1IsrRx streamSend
  split
  · split
    · exact h
    · simp only
      split <;> simp [h]
  · exact h

/-- the steps of the task inside a message -/
theorem Continued.task {fw fw' : Fw} {e : TaskEff} (h : Continued fw cur)
    (hs : TaskStep fw .run fw' e) (hw : fw.task.pc ≠ .wait) (hb : ∀ m, fw.task.pc ≠ .built m) :
    Continued fw' cur := by
  cases hs with
  | recv hpc =>
    by_cases hq : fw.serial.rxq = []
    · have hcur : cur = [] := by_contra fun hne => h.recv hpc hne hq
      refine ⟨fun _ hne => absurd hcur hne, fun m hm => ?_⟩
      simp only [hq, if_true] at hm
      cases hm
    · refine ⟨fun hm => ?_, fun m hm => ?_⟩
      · simp only [hq, if_false] at hm
        cases hm
      · simp only [hq, if_false] at hm
        cases hm
  | addr d hpc => exact ⟨fun hm => TaskPc.noConfusion hm, fun m hm => TaskPc.noConfusion hm⟩
  | object d a hpc => exact ⟨fun hm => TaskPc.noConfusion hm, fun m hm => TaskPc.noConfusion hm⟩
  | build d a o hpc =>
    refine ⟨fun hm => TaskPc.noConfusion hm, fun m hm he => ?_⟩
    -- `eot` is clear only if more bytes were available
    cases hm
    have havail : ¬ (fw.serial.rxq.length == 0) = true := by
      intro h0
      have hset : (fw.datMsg d a o).eot = true := by
        show (fw.serial.rxq.length == 0 || fw.task.seq == 15) = true
        rw [h0, Bool.true_or]
      rw [hset] at he
      cases he
    intro hnil
    replace hnil : fw.serial.rxq = [] := hnil
    rw [hnil] at havail
    exact havail rfl
  | send m hpc => exact absurd hpc (hb m)
  | notified hpc _ => exact absurd hpc hw

theorem Flowing.send (hd : Data s old cur) (hp : Proper s) (hpair : Paired s old cur)
    (hc : Continued s.fw cur) {m : CanMsg} (hpc : s.fw.task.pc = .built m) :
    Flowing (s.afterSend m) := by
  refine ⟨old, _, hd.send hpc, hp, hpair.send hd hpc, fun hrecv _ => ?_, fun m' hm' => ?_⟩
  · have heot : m.eot = false := by
      cases he : m.eot with
      | false => rfl
      | true =>
        replace hrecv : (if m.eot = true then TaskPc.wait else TaskPc.recv) = .recv := hrecv
        rw [he] at hrecv
        cases hrecv
    exact hc.built m hpc heot
  · replace hm' : (if m.eot = true then TaskPc.wait else TaskPc.recv) = .built m' := hm'
    cases he : m.eot <;> rw [he] at hm' <;> cases hm'

/-- **The runs without timeouts keep the invariant.** -/
theorem Flowing.step (h : Flowing s) {a : SessionAct} (ha : NoTimeout s a) (hs : s.step a = some t) :
    Flowing t := by
  obtain ⟨old, cur, hd, hp, hpair, hc⟩ := h
  cases a with
  | uart c =>
    cases hs
    refine ⟨old, cur, hd.of_outbound (hd.of_fw rfl rfl hd.link.awake hd.task hd.log.bytes), hp,
      hpair.congr rfl rfl rfl rfl, fun hpc hne => ?_, fun m hpc he => ?_⟩
    · exact usart1IsrRx_ne _ c (hc.recv hpc hne)
    · exact usart1IsrRx_ne _ c (hc.built m hpc he)
  | task =>
    rcases task_cases hs with ⟨hw, hb⟩ | ⟨m, hpc, rfl⟩ | ⟨hpc, hn, rfl⟩
    · obtain ⟨hd', hn, hh, hf, hacks, hhelper⟩ := hd.quiet_task hp hs hw hb
      obtain ⟨⟨fw, e⟩, hstep, rfl⟩ := Option.map_eq_some_iff.mp hs
      refine ⟨old, cur, hd', hp.congr hf hhelper, hpair.congr hn hh hf hacks, ?_⟩
      have hfw : (s.afterTask fw e).fw = fw := by cases e <;> rfl
      rw [hfw]
      exact hc.task (consoleTask_step hstep).2 hw hb
    · exact Flowing.send hd hp hpair hc hpc
    · exact ⟨_, _, hd.leave hpc (hpair.leave hn).1.2, hp, hpair.left hd hn,
        fun _ hne => absurd rfl hne, fun m hm => TaskPc.noConfusion hm⟩
  | ackTimeout => exact absurd rfl ha.1
  | toHelper i =>
    obtain ⟨_, f, hf, rfl⟩ := deliver_some hs
    exact ⟨old, cur, (hd.deliver hf).1, hp.deliver hd hf, hpair.deliver hd hf, hc.recv, hc.built⟩
  | toFw i =>
    obtain ⟨b, hb, rfl⟩ := receive_ack hd.link hp hs
    exact ⟨old, cur, hd.ack i b, hp.ack i b, hpair.ack hb, hc.recv, hc.built⟩
  | recvTimeout => exact absurd rfl ha.2

/-! ## the rank -/

theorem moving_noTimeout {a : SessionAct} (h : Moving s a) : NoTimeout s a := by
  cases a with
  | task => exact ⟨by simp, by simp⟩
  | toHelper i => exact ⟨by simp, by simp⟩
  | toFw i => exact ⟨by simp, by simp⟩
  | uart c => exact absurd h id
  | ackTimeout => exact absurd h id
  | recvTimeout => exact absurd h id

theorem task_work {fw' : Fw} {e : TaskEff} (hs : TaskStep s.fw .run fw' e)
    (hmoving : Moving s .task) : (s.afterTask fw' e).work < s.work := by
  have hflight : ∀ m, (s.afterTask fw' (.sent m)).toHelper.length = s.toHelper.length + 1 :=
    fun m => List.length_append
  cases hs with
  | recv hpc =>
    have hq : s.fw.serial.rxq ≠ [] := fun hq => hmoving ⟨hpc, hq⟩
    have hlen := List.length_pos_iff.mpr hq
    have hrxq : (s.fw.serial.serialRecv 8).1.rxq = s.fw.serial.rxq.drop 8 := by
      unfold Serial.serialRecv streamReceive
      simp only
      split <;> rfl
    unfold Session.work
    simp only [Session.afterTask, hrxq, hq, if_false, hpc, TaskPc.work, List.length_drop]
    omega
  | addr d hpc => simp [Session.work, Session.afterTask, Fw.goto, hpc, TaskPc.work]
  | object d a hpc => simp [Session.work, Session.afterTask, Fw.goto, hpc, TaskPc.work]
  | build d a o hpc => simp [Session.work, Session.afterTask, hpc, TaskPc.work]
  | send m hpc =>
    have hnext : (if m.eot = true then TaskPc.wait else TaskPc.recv).work ≤ 1 := by
      split <;> decide
    have hwork : (s.afterTask (s.fw.goto (if m.eot then .wait else .recv)) (.sent m)).work =
        8 * s.fw.serial.rxq.length + (if m.eot = true then TaskPc.wait else TaskPc.recv).work +
          2 * (s.toHelper.length + 1) + s.toFw.length := by
      rw [← hflight m]
      rfl
    have hbuilt : s.fw.task.pc.work = 4 := by
      rw [hpc]
      rfl
    rw [hwork]
    unfold Session.work
    omega
  | notified hpc hn => simp [Session.work, Session.afterTask, Fw.endWait, hpc, TaskPc.work]

/-- **Every move is progress.** -/
theorem moving_work {a : SessionAct} (h : Flowing s) (ha : Moving s a) (hs : s.step a = some t) :
    t.work < s.work := by
  obtain ⟨old, cur, hd, hp, hpair, hc⟩ := h
  cases a with
  | task =>
    obtain ⟨⟨fw, e⟩, hstep, rfl⟩ := Option.map_eq_some_iff.mp hs
    exact task_work (consoleTask_step hstep).2 ha
  | toHelper i =>
    obtain ⟨_, f, hf, rfl⟩ := deliver_some hs
    have hlt : i < s.toHelper.length := (List.getElem?_eq_some_iff.mp hf).1
    have hflight : (s.afterDeliver i f).toHelper = s.toHelper.eraseIdx i := rfl
    have hfw : (s.afterDeliver i f).fw = s.fw := rfl
    unfold Session.work
    rw [hflight, hfw, List.length_eraseIdx_of_lt hlt]
    rcases (hd.deliver hf).2 with ⟨_, ht, _⟩ | ⟨_, ht, _⟩
    · rw [ht]
      omega
    · rw [ht, List.length_append, List.length_singleton]
      omega
  | toFw i =>
    obtain ⟨b, hb, rfl⟩ := receive_ack hd.link hp hs
    have hlt : i < s.toFw.length := (List.getElem?_eq_some_iff.mp hb).1
    have hflight : (s.afterAck i b).toFw = s.toFw.eraseIdx i := rfl
    have hhelper : (s.afterAck i b).toHelper = s.toHelper := rfl
    have hserial : (s.afterAck i b).fw.serial = s.fw.serial := rfl
    have hpc : (s.afterAck i b).fw.task.pc = s.fw.task.pc := rfl
    unfold Session.work
    rw [hflight, hhelper, hserial, hpc, List.length_eraseIdx_of_lt hlt]
    omega
  | uart c => exact absurd ha id
  | ackTimeout => exact absurd ha id
  | recvTimeout => exact absurd ha id

theorem stream_descends : Machine.Descends session Flowing Moving work where
  keeps _ _ _ hx ha hs := hx.step (moving_noTimeout ha) hs
  lowers _ _ _ hx ha hs := moving_work hx ha hs

/-- **Somebody can go on** until everything is done; in particular a task that waits has its ACK, or
the ACK or a message of its burst is on the bus. -/
theorem Flowing.go (h : Flowing s) : s.Settled ∨ ∃ a t, Moving s a ∧ s.step a = some t := by
  obtain ⟨old, cur, hd, hp, hpair, hc⟩ := h
  cases hflight : s.toHelper with
  | cons f fs =>
    have halive : s.helper.alive = true := by
      unfold Helper.alive
      rw [hd.link.alive]
      rfl
    have hf : s.toHelper[0]? = some f := by
      rw [hflight]
      rfl
    refine .inr ⟨.toHelper 0, s.afterDeliver 0 f, trivial, ?_⟩
    show s.deliver 0 = _
    unfold Session.deliver
    rw [if_pos halive, hf]
    rfl
  | nil =>
    cases hacks : s.toFw with
    | cons bm bms =>
      have hbm : s.toFw[0]? = some bm := by
        rw [hacks]
        rfl
      obtain ⟨t, ht⟩ : ∃ t, s.receive 0 = some t := by
        unfold Session.receive
        rw [hbm]
        exact ⟨_, rfl⟩
      exact .inr ⟨.toFw 0, t, trivial, ht⟩
    | nil =>
      have hawake : ¬ s.fw.task.suspended = true := by
        rw [hd.link.awake]
        exact Bool.false_ne_true
      have hgo : ∀ r, Moving s .task → consoleTask s.fw .run = some r →
          s.Settled ∨ ∃ a t, Moving s a ∧ s.step a = some t := fun r hm hr =>
        .inr ⟨.task, s.afterTask r.1 r.2, hm, congrArg (Option.map _) hr⟩
      have hmove : s.fw.task.pc ≠ .recv → Moving s .task := fun hne h => hne h.1
      unfold consoleTask at hgo
      rw [if_neg hawake] at hgo
      cases hpc : s.fw.task.pc <;> rw [hpc] at hgo hmove
      case recv =>
        by_cases hq : s.fw.serial.rxq = []
        · exact .inl ⟨hpc, hq, hflight, hacks⟩
        · simp only at hgo
          split at hgo <;> exact hgo _ (fun h => hq h.2) rfl
      case wait =>
        -- the burst is done, so its ACK is neither lost nor on the bus
        have hdone : Done s cur := by
          have ht := hd.task
          unfold TaskOk at ht
          rw [hpc] at ht
          exact ⟨ht, hflight⟩
        have hone := hpair.pending hdone
        rw [hacks, List.length_nil, Nat.zero_add] at hone
        have hn : 0 < s.fw.task.notify := by omega
        exact hgo _ (hmove TaskPc.noConfusion) (if_pos hn)
      all_goals exact hgo _ (hmove TaskPc.noConfusion) rfl

/-- **At rest, everything has been written.** -/
theorem Flowing.settled (h : Flowing s) (hs : s.Settled) :
    s.helper.stdoutBytes = s.taken := by
  obtain ⟨old, cur, hd, _, _, hc⟩ := h
  have hcur : cur = [] := by_contra fun hne => hc.recv hs.pc hne hs.rxq
  subst hcur
  have hnd : ¬ Done s [] := fun hdone => Bool.false_ne_true hdone.1
  rw [Helper.stdoutBytes, (hd.partly hnd).2, hd.log.bytes, hs.pc, hd.log.sent, List.append_nil]
  exact (List.append_nil _).symm

/-- a move takes bytes from `serialrxq`, and only from there -/
theorem moving_bytes {a : SessionAct} (h : Flowing s) (ha : Moving s a) (hs : s.step a = some t) :
    t.taken ++ t.fw.serial.rxq = s.taken ++ s.fw.serial.rxq := by
  obtain ⟨old, cur, hd, hp, _⟩ := h
  cases a with
  | task =>
    obtain ⟨⟨fw, e⟩, hstep, rfl⟩ := Option.map_eq_some_iff.mp hs
    cases (consoleTask_step hstep).2 with
    | recv hpc =>
      have hrxq : (s.fw.serial.serialRecv 8).1.rxq = s.fw.serial.rxq.drop 8 := by
        unfold Serial.serialRecv streamReceive
        simp only
        split <;> rfl
      show s.taken ++ s.fw.serial.rxq.take 8 ++ (s.fw.serial.serialRecv 8).1.rxq = _
      rw [hrxq, List.append_assoc, List.take_append_drop]
    | _ => rfl
  | toHelper i =>
    obtain ⟨_, f, hf, rfl⟩ := deliver_some hs
    rfl
  | toFw i =>
    obtain ⟨b, hb, rfl⟩ := receive_ack hd.link hp hs
    rfl
  | uart c => exact absurd ha id
  | ackTimeout => exact absurd ha id
  | recvTimeout => exact absurd ha id

end

/-- **The stream comes to rest with everything delivered.**  From a state `t` of a run without
timeouts, if no more bytes come from the Pi: no sequence of moves is longer than the work there is; a
state that it reaches has a move left or is settled; and when it is settled, stdout has every byte that
`serialrxq` had accepted. -/
theorem stream_settles {s t u : Session} {as : List SessionAct} (h0 : s.Start)
    (h : session.Reach NoTimeout s t) (hmoves : session.Along Moving t as)
    (hrun : session.run t as = some u) :
    as.length + u.work ≤ t.work ∧ (u.Settled ∨ ∃ a v, Moving u a ∧ session.step u a = some v) ∧
      (u.Settled → u.helper.stdoutBytes = t.taken ++ t.fw.serial.rxq) := by
  have ht : Flowing t := h.inv (Start.flowing h0) fun _ _ _ hx ha hs => hx.step ha hs
  have hreach := Machine.run_reach hmoves hrun
  have hu : Flowing u := stream_descends.inv ht hreach
  refine ⟨stream_descends.length ht hmoves hrun, hu.go, fun hs => ?_⟩
  have hbytes : Flowing u ∧ u.taken ++ u.fw.serial.rxq = t.taken ++ t.fw.serial.rxq :=
    hreach.inv (I := fun x => Flowing x ∧ x.taken ++ x.fw.serial.rxq = t.taken ++ t.fw.serial.rxq)
      ⟨ht, rfl⟩ fun x a y hx ha hxy => ⟨stream_descends.keeps x a y hx.1 ha hxy,
        (moving_bytes hx.1 ha hxy).trans hx.2⟩
  rw [hu.settled hs, ← hbytes.2, hs.rxq, List.append_nil]

/-- two bytes; the second comes while the first is being sent -/
def twoBytesSent : List SessionAct :=
  .uart 65 :: List.replicate 4 .task ++ [.uart 66]

/-- the moves that are left -/
def movesLeft : List SessionAct :=
  [.task, .toHelper 0, .toFw 0, .task, .task, .task, .task, .task, .task, .toHelper 0, .toFw 0, .task]

theorem stream_settles_two : ∃ t u, session.run (connect 16 32) twoBytesSent = some t ∧
    session.run t movesLeft = some u ∧ t.work = 12 ∧
    (u.Settled ∨ ∃ a v, Moving u a ∧ session.step u a = some v) ∧
    (u.Settled → u.helper.stdoutBytes = [65, 66]) := by
  have hstart : (session.run (connect 16 32) twoBytesSent).map (fun t =>
      (t.work, t.taken ++ t.fw.serial.rxq)) = some (12, [65, 66]) := by decide
  have hmoving : (session.run (connect 16 32) twoBytesSent).map (fun t =>
      decide (session.Along Moving t movesLeft)) = some true := by decide
  have hleft : ((session.run (connect 16 32) twoBytesSent).bind fun t =>
      session.run t movesLeft).isSome = true := by decide
  obtain ⟨t, ht, hend⟩ := Option.map_eq_some_iff.mp hstart
  rw [Prod.mk.injEq] at hend
  rw [ht, Option.map_some, Option.some.injEq, decide_eq_true_iff] at hmoving
  rw [ht, Option.bind_some] at hleft
  obtain ⟨u, hu⟩ := Option.isSome_iff_exists.mp hleft
  have hacts : ∀ a ∈ twoBytesSent, a ≠ SessionAct.ackTimeout ∧ a ≠ SessionAct.recvTimeout := by
    decide
  have hguard : session.Along NoTimeout (connect 16 32) twoBytesSent :=
    Machine.Along.of_actions (fun _ _ h => h) _ hacts
  obtain ⟨_, hgo, hdone⟩ :=
    stream_settles (connect_start 16 32) (Machine.run_reach hguard ht) hmoving hu
  rw [hend.2] at hdone
  exact ⟨t, u, ht, hu, hend.1, hgo, hdone⟩

end Bramble
