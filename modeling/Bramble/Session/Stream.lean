import Bramble.Session.Invariant

/-!
# Serial-to-stdout streaming without timeouts

As long as neither timer expires, the ACKs pair with the bursts exactly:

* `Paired`               one ACK per completed burst, and while the task waits for a completed
                         burst its ACK is in flight or counted as a notification;
* `moves_paired`         every move keeps `Data` and `Paired`;
* `stream_exactly_once`  stdout is the completed bursts, in the order sent.
-/

namespace Bramble
open Session

/-- The ACKs in flight and the notifications, when no wait has expired. -/
structure Paired (s : Session) (old cur : List Frame) : Prop where
  pending : Done s cur → s.toFw.length + s.fw.task.notify = 1
  none : ¬ Done s cur → s.toFw = [] ∧ s.fw.task.notify = 0
  acked : Done s cur → s.acksOut.length = eots old + 1
  unacked : ¬ Done s cur → s.acksOut.length = eots old

def NoTimeout (_ : Session) (a : SessionAct) : Prop := a ≠ .ackTimeout ∧ a ≠ .recvTimeout

def Streaming (s : Session) : Prop :=
  ∃ old cur, Data s old cur ∧ Proper s ∧ Paired s old cur

theorem Start.streaming {s : Session} (h : s.Start) : Streaming s := by
  have hnd : ¬ Done s [] := fun hd => Bool.false_ne_true hd.1
  refine ⟨[], [], Start.data h, ?_, fun hd => absurd hd hnd, fun _ => ⟨h.toFw, by rw [h.task]⟩,
    fun hd => absurd hd hnd, fun _ => by rw [h.acksOut]; rfl⟩
  intro p hp
  rw [h.toFw] at hp
  cases hp

section
variable {s : Session} {old cur : List Frame}

/-- a notification is the ACK of the burst that is waited for, and nothing is in flight -/
theorem Paired.leave (h : Paired s old cur) (hn : 0 < s.fw.task.notify) :
    Done s cur ∧ s.toFw = [] := by
  by_cases hd : Done s cur
  · have := h.pending hd
    exact ⟨hd, List.length_eq_zero_iff.mp (by omega)⟩
  · have := (h.none hd).2
    omega

theorem Paired.send (hp : Paired s old cur) (h : Data s old cur) {m : CanMsg}
    (hpc : s.fw.task.pc = .built m) : Paired (s.afterSend m) old (cur ++ [s.label m]) := by
  obtain ⟨he, _⟩ := h.built hpc
  have hnd : ¬ Done s cur := fun hd => Bool.false_ne_true (he.symm.trans hd.1)
  have hnd' : ¬ Done (s.afterSend m) (cur ++ [s.label m]) := by
    intro hd
    have : s.toHelper ++ [s.label m] = [] := hd.2
    simp at this
  exact ⟨fun hd => absurd hd hnd', fun _ => hp.none hnd, fun hd => absurd hd hnd',
    fun _ => hp.unacked hnd⟩

theorem Paired.left (hp : Paired s old cur) (h : Data s old cur) (hn : 0 < s.fw.task.notify) :
    Paired { s with fw := s.fw.endWait } (old ++ cur) [] := by
  obtain ⟨hd, h0⟩ := hp.leave hn
  have hnd : ¬ Done { s with fw := s.fw.endWait } [] := fun hd => Bool.false_ne_true hd.1
  refine ⟨fun hd' => absurd hd' hnd, fun _ => ⟨h0, rfl⟩, fun hd' => absurd hd' hnd, fun _ => ?_⟩
  rw [(h.log.leave_bursts hd.1).1]
  exact hp.acked hd

theorem Paired.deliver (hp : Paired s old cur) (h : Data s old cur) {i : Nat} {f : Frame}
    (hi : s.toHelper[i]? = some f) : Paired (s.afterDeliver i f) old cur := by
  have hnd : ¬ Done s cur := fun hd => by
    have := List.mem_of_getElem? hi
    rw [hd.2] at this
    cases this
  obtain ⟨h0, hn⟩ := hp.none hnd
  have hnotify : (s.afterDeliver i f).fw.task.notify = s.fw.task.notify := rfl
  rcases (h.deliver hi).2 with ⟨hnd', ht, ha⟩ | ⟨hd', ht, ha⟩
  · refine ⟨fun hd' => absurd hd' hnd', fun _ => ⟨by rw [ht, h0], hn⟩, fun hd' => absurd hd' hnd',
      fun _ => by rw [ha]; exact hp.unacked hnd⟩
  · refine ⟨fun _ => ?_, fun hnd' => absurd hd' hnd', fun _ => ?_, fun hnd' => absurd hd' hnd'⟩
    · rw [ht, h0, hnotify, hn]
      rfl
    · rw [ha, List.length_append, hp.unacked hnd]
      rfl

theorem Paired.ack (hp : Paired s old cur) {i b : Nat} {m : CanMsg}
    (hi : s.toFw[i]? = some (b, m)) : Paired (s.afterAck i b) old cur := by
  have hlt : i < s.toFw.length := (List.getElem?_eq_some_iff.mp hi).1
  have hnotify : (s.afterAck i b).fw.task.notify = s.fw.task.notify + 1 := rfl
  have hflight : (s.afterAck i b).toFw = s.toFw.eraseIdx i := rfl
  refine ⟨fun hd => ?_, fun hnd => ?_, hp.acked, hp.unacked⟩
  · have := hp.pending hd
    rw [hflight, hnotify, List.length_eraseIdx_of_lt hlt]
    omega
  · have := (hp.none hnd).1
    rw [this] at hlt
    cases hlt

/-- **Every move of a run without timeouts keeps the pairing.** -/
theorem moves_paired {a : SessionAct} {t : Session} (hm : Moves s old cur a t)
    (ha : a ≠ .ackTimeout) (h : Data s old cur) (hp : Proper s) (hpair : Paired s old cur) :
    Streaming t := by
  cases hm with
  | quiet fw taken hn _ hs =>
    refine ⟨old, cur, h.of_outbound hs, hp, ?_, ?_, hpair.acked, hpair.unacked⟩
    · intro hd'
      rw [show fw.task.notify = _ from hn]
      exact hpair.pending hd'
    · intro hnd
      rw [show fw.task.notify = _ from hn]
      exact hpair.none hnd
  | send m hpc => exact ⟨old, _, h.send hpc, hp, hpair.send h hpc⟩
  | leave hl hn =>
    obtain ⟨_, hn⟩ | ⟨h', _⟩ := hn
    · exact ⟨_, _, h.leave hl.1 (hpair.leave hn).1.2, hp, hpair.left h hn⟩
    · exact absurd h' ha
  | deliver i f hi => exact ⟨old, cur, (h.deliver hi).1, hp.deliver h hi, hpair.deliver h hi⟩
  | ack i b hi => exact ⟨old, cur, h.ack i b, hp.ack i b, hpair.ack hi⟩

/-! ## completed bursts -/

theorem completed_old (h : Data s old cur) {f : Frame} (hf : f ∈ old) :
    s.completed f.burst = true := by
  obtain ⟨g, hg, he, hb⟩ := h.log.closed f.burst (h.log.oldBursts f hf)
  have h1 : (s.sent.any fun g => g.burst == f.burst && g.msg.eot) = true := by
    rw [h.log.sent, List.any_eq_true]
    exact ⟨g, List.mem_append_left _ hg, by simp [hb, he]⟩
  have h2 : (s.toHelper.any fun g => g.burst == f.burst) = false := by
    rw [List.any_eq_false]
    intro g hg hb
    have h3 := h.log.curBursts g (h.flight g hg)
    have h4 := h.log.oldBursts f hf
    have h5 : g.burst = f.burst := by simpa using hb
    omega
  rw [Session.completed, h1, h2]
  rfl

theorem completed_cur (h : Data s old cur) {f : Frame} (hf : f ∈ cur) :
    s.completed f.burst = true ↔ Done s cur := by
  have hb := h.log.curBursts f hf
  have h1 : (s.sent.any fun g => g.burst == f.burst && g.msg.eot) = hasEot cur := by
    rw [h.log.sent, List.any_append, hb]
    have hold : (old.any fun g => g.burst == eots old && g.msg.eot) = false := by
      rw [List.any_eq_false]
      intro g hg hgb
      have := h.log.oldBursts g hg
      simp at hgb
      omega
    rw [hold, Bool.false_or, hasEot, Bool.eq_iff_iff, List.any_eq_true, List.any_eq_true]
    constructor
    · rintro ⟨g, hg, he⟩
      exact ⟨g, hg, by simp at he; exact he.2⟩
    · rintro ⟨g, hg, he⟩
      exact ⟨g, hg, by simp [h.log.curBursts g hg, he]⟩
  have h2 : (s.toHelper.any fun g => g.burst == f.burst) = false ↔ s.toHelper = [] := by
    rw [List.any_eq_false, List.eq_nil_iff_forall_not_mem]
    constructor
    · intro hall g hg
      have := h.log.curBursts g (h.flight g hg)
      exact hall g hg (by simp [this, hb])
    · intro hall g hg
      exact absurd hg (hall g)
  rw [Session.completed, h1, Bool.and_eq_true, Bool.not_eq_true', h2]
  rfl

theorem completed_done (h : Data s old cur) (hd : Done s cur) :
    s.completedBytes = s.helper.stdoutBytes ∧ s.completedBursts = eots old + 1 := by
  have hall : ∀ f ∈ s.sent, s.completed f.burst = true := by
    intro f hf
    rw [h.log.sent] at hf
    rcases List.mem_append.mp hf with hf | hf
    · exact completed_old h hf
    · exact (completed_cur h hf).mpr hd
  constructor
  · rw [Session.completedBytes, List.filter_eq_self.mpr hall, Helper.stdoutBytes,
      h.written hd, h.log.sent]
  · have hcount : s.completedBursts = eots s.sent := by
      apply List.countP_congr
      intro f hf
      rw [hall f hf, Bool.and_true]
    rw [hcount, h.log.sent, (h.log.leave_bursts hd.1).1]

theorem completed_open (h : Data s old cur) (hnd : ¬ Done s cur) :
    s.completedBytes = s.helper.stdoutBytes ∧ s.completedBursts = eots old := by
  have hcur : ∀ f ∈ cur, ¬ s.completed f.burst = true := fun f hf hc =>
    hnd ((completed_cur h hf).mp hc)
  constructor
  · rw [Session.completedBytes, Helper.stdoutBytes, (h.partly hnd).2, h.log.sent,
      List.filter_append, List.filter_eq_self.mpr fun f hf => completed_old h hf,
      List.filter_eq_nil_iff.mpr hcur, List.append_nil]
  · rw [Session.completedBursts, h.log.sent, List.countP_append]
    have h1 : old.countP (fun f => f.msg.eot && s.completed f.burst) = eots old := by
      apply List.countP_congr
      intro f hf
      rw [completed_old h hf, Bool.and_true]
    have h2 : cur.countP (fun f => f.msg.eot && s.completed f.burst) = 0 := by
      rw [List.countP_eq_zero]
      intro f hf hc
      rw [Bool.and_eq_true] at hc
      exact hcur f hf hc.2
    rw [h1, h2, Nat.add_zero]

theorem stdout_prefix (h : Data s old cur) : s.helper.stdoutBytes <+: s.taken := by
  have hout : s.helper.stdout <+: s.sent := by
    rw [h.log.sent]
    by_cases hd : Done s cur
    · rw [h.written hd]
    · rw [(h.partly hd).2]
      exact List.prefix_append _ _
  obtain ⟨rest, hrest⟩ := hout
  rw [h.log.bytes, ← hrest, List.flatMap_append, List.append_assoc]
  exact List.prefix_append _ _

end

/-- **Serial-to-stdout streaming is exactly-once and in order.**  In every run in which neither
timer expires, stdout holds the payloads of the completed bursts in the order sent, these are a
prefix of the bytes taken from `serialrxq`, and one ACK has been sent per completed burst. -/
theorem stream_exactly_once {s t : Session} (h0 : s.Start) (h : session.Reach NoTimeout s t) :
    t.helper.stdoutBytes = t.completedBytes ∧ t.helper.stdoutBytes <+: t.taken ∧
      t.acksOut.length = t.completedBursts := by
  have hinv : Streaming t := by
    refine h.inv (Start.streaming h0) ?_
    rintro x a y ⟨old, cur, hd, hp, hpair⟩ ⟨h1, h2⟩ hstep
    exact moves_paired (hd.moves hp h2 hstep) h1 hd hp hpair
  obtain ⟨old, cur, hd, _, hpair⟩ := hinv
  by_cases hdone : Done t cur
  · obtain ⟨h1, h2⟩ := completed_done hd hdone
    exact ⟨h1.symm, stdout_prefix hd, by rw [h2]; exact hpair.acked hdone⟩
  · obtain ⟨h1, h2⟩ := completed_open hd hdone
    exact ⟨h1.symm, stdout_prefix hd, by rw [h2]; exact hpair.unacked hdone⟩

/-- nine bytes in two messages that arrive in the wrong order, then a second burst -/
def twoBursts : List SessionAct :=
  List.flatten [List.replicate 9 (.uart 65), List.replicate 10 .task,
    [.toHelper 1, .toHelper 0, .toFw 0, .task, .uart 66], List.replicate 5 .task, [.toHelper 0]]

theorem stream_two_bursts : ∃ t, session.run (connect 16 32) twoBursts = some t ∧
    t.helper.stdoutBytes = List.replicate 9 65 ++ [66] ∧
    (t.helper.stdoutBytes = t.completedBytes ∧ t.helper.stdoutBytes <+: t.taken ∧
      t.acksOut.length = t.completedBursts) := by
  have hout : (session.run (connect 16 32) twoBursts).map (fun t => t.helper.stdoutBytes)
      = some (List.replicate 9 65 ++ [66]) := by decide
  obtain ⟨t, ht, hb⟩ := Option.map_eq_some_iff.mp hout
  have hacts : ∀ a ∈ twoBursts, a ≠ SessionAct.ackTimeout ∧ a ≠ SessionAct.recvTimeout := by
    decide
  have hguard : session.Along NoTimeout (connect 16 32) twoBursts :=
    Machine.Along.of_actions (fun _ _ h => h) _ hacts
  exact ⟨t, ht, hb, stream_exactly_once (connect_start 16 32) (Machine.run_reach hguard ht)⟩

end Bramble
