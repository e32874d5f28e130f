import Bramble.Firmware.RxTask
import Bramble.Session.Timers

/-!
# Which ACK ends which wait

The notification count of the console task is not cleared when a wait expires, and an ACK carries
no burst number.

* `Owed`                  the ACKs in flight are for bursts already on stdout, and what is counted
                          belongs to the wait the task is in;
* `notified_pairs`        as long as the messages and the receive timer are in time and no ACK
                          arrives after its own wait, a notification ends the wait of its burst;
* `notified_pairs_fails`  otherwise one late ACK ends the wait of a later burst.
-/

namespace Bramble
open Session

/-- The last burst sent is on stdout and its ACK has been received. -/
structure Acknowledged (s : Session) : Prop where
  written : ∀ f ∈ s.sent, f.burst + 1 = eots s.sent → f ∈ s.helper.stdout
  received : ∃ b ∈ s.acksIn, b + 1 = eots s.sent

/-- The data are in time, and an ACK arrives in the wait of the burst it was sent for. -/
structure OnTime (s : Session) (a : SessionAct) : Prop where
  data : InTime s a
  ack : ∀ i b m, a = .toFw i → s.toFw[i]? = some (b, m) → m.type = .ack →
    s.fw.task.pc = .wait ∧ b + 1 = eots s.sent

/-- the ACKs in flight and the notifications counted -/
structure Owed (s : Session) : Prop where
  flight : ∀ p ∈ s.toFw, p.2.type = .ack →
    p.1 < eots s.sent ∧ ∀ f ∈ s.sent, f.burst = p.1 → f ∈ s.helper.stdout
  idle : s.fw.task.pc ≠ .wait → s.fw.task.notify = 0
  counted : 0 < s.fw.task.notify → Acknowledged s

theorem Start.owed {s : Session} (h : s.Start) : Owed s := by
  refine ⟨?_, ?_, ?_⟩
  · intro p hp
    rw [h.toFw] at hp
    cases hp
  · intro _
    rw [h.task]
  · intro hn
    rw [h.task] at hn
    cases hn

section
variable {s t : Session} {old cur : List Frame} {n : Nat}

/-! ## the firmware side -/

theorem Owed.send (h : Owed s) {m : CanMsg} (hpc : s.fw.task.pc = .built m) :
    Owed (s.afterSend m) := by
  have hsent : (s.afterSend m).sent = s.sent ++ [s.label m] := rfl
  have hout : (s.afterSend m).helper = s.helper := rfl
  have hn : (s.afterSend m).fw.task.notify = 0 := h.idle (by rw [hpc]; simp)
  refine ⟨?_, fun _ => hn, ?_⟩
  · intro p hp ht
    obtain ⟨hlt, hw⟩ := h.flight p hp ht
    rw [hsent, eots_append, hout]
    refine ⟨by omega, ?_⟩
    intro f hf hb
    rcases List.mem_append.mp hf with hf | hf
    · exact hw f hf hb
    · rw [List.mem_singleton.mp hf] at hb
      have : eots s.sent = p.1 := hb
      omega
  · intro hpos
    omega

theorem Owed.task (h : Owed s) {ev : TaskEv} (hs : s.taskStep ev = some t) : Owed t := by
  obtain ⟨⟨fw, e⟩, hstep, rfl⟩ := Option.map_eq_some_iff.mp hs
  have hst := (consoleTask_step hstep).2
  have hidle : s.fw.task.pc ≠ .wait → s.fw.task.notify = 0 := h.idle
  have hquiet : ∀ (fw : Fw) (taken : List UInt8), fw.task.notify = 0 →
      Owed { s with fw := fw, taken := taken } := fun fw taken hn =>
    ⟨h.flight, fun _ => hn, fun hpos => absurd (hn ▸ hpos) (Nat.lt_irrefl 0)⟩
  cases hst with
  | recv hpc => exact hquiet _ _ (hidle (by rw [hpc]; simp))
  | addr d hpc => exact hquiet _ s.taken (hidle (by rw [hpc]; simp))
  | object d a hpc => exact hquiet _ s.taken (hidle (by rw [hpc]; simp))
  | build d a o hpc => exact hquiet _ s.taken (hidle (by rw [hpc]; simp))
  | send m hpc => exact h.send hpc
  | fail m hpc => exact hquiet _ s.taken (hidle (by rw [hpc]; simp))
  | notified hpc hn => exact hquiet _ s.taken rfl
  | expired hpc hn => exact hquiet _ s.taken rfl

/-- an ACK that arrives in its own wait, or any other message -/
theorem Owed.receive (h : Owed s) {i : Nat} (hg : OnTime s (.toFw i)) (hs : s.receive i = some t) :
    Owed t := by
  obtain ⟨⟨b, m⟩, hi, rfl⟩ := Option.map_eq_some_iff.mp hs
  have hrx := canservicesRxTask_step s.fw m
  have hflight : ∀ p ∈ s.toFw.eraseIdx i, p.2.type = .ack →
      p.1 < eots s.sent ∧ ∀ f ∈ s.sent, f.burst = p.1 → f ∈ s.helper.stdout :=
    fun p hp => h.flight p (List.mem_of_mem_eraseIdx hp)
  by_cases ha : m.type = .ack
  · obtain ⟨hpc, hb⟩ := hg.ack i b m rfl hi ha
    have hin : ∀ f ∈ s.sent, f.burst = b → f ∈ s.helper.stdout :=
      (h.flight (b, m) (List.mem_of_getElem? hi) ha).2
    refine ⟨hflight, fun hne => absurd (hrx.pc.1.trans hpc) hne, fun _ => ⟨?_, b, ?_, hb⟩⟩
    · intro f hf hfb
      have hfb' : f.burst + 1 = eots s.sent := hfb
      exact hin f hf (by omega)
    · show b ∈ if m.type = .ack then s.acksIn ++ [b] else s.acksIn
      rw [if_pos ha]
      exact List.mem_append_right _ List.mem_cons_self
  · have hn : (canservicesRxTask s.fw m).1.task.notify = s.fw.task.notify := hrx.notify ha
    refine ⟨hflight, ?_, ?_⟩
    · intro hne
      show (canservicesRxTask s.fw m).1.task.notify = 0
      rw [hn]
      exact h.idle fun hpc => hne (hrx.pc.1.trans hpc)
    · intro hpos
      have hpos' : 0 < (canservicesRxTask s.fw m).1.task.notify := hpos
      rw [hn] at hpos'
      obtain ⟨hw, c, hc, hcb⟩ := h.counted hpos'
      refine ⟨hw, c, ?_, hcb⟩
      show c ∈ if m.type = .ack then s.acksIn ++ [b] else s.acksIn
      rw [if_neg ha]
      exact hc

/-! ## the helper side -/

/-- a wait that ends without the timeout was notified -/
theorem notified_of_step (hpc : s.fw.task.pc = .wait) (hs : s.step .task = some t) :
    0 < s.fw.task.notify := by
  obtain ⟨⟨fw, e⟩, hrun, _⟩ := Option.map_eq_some_iff.mp hs
  by_contra hn
  have hblocked : consoleTask s.fw .run = none := by
    unfold consoleTask
    rw [hpc]
    simp only [if_neg hn]
    split <;> rfl
  rw [hblocked] at hrun
  cases hrun

/-- a delivery writes a burst before it acknowledges it -/
theorem Owed.deliver (h : Owed s) (hd : Outbound s old cur) (hi : Inbound s n) {i : Nat} {f : Frame}
    (hf : s.toHelper[i]? = some f) (hfirst : ∀ g ∈ s.toHelper, f.burst ≤ g.burst) :
    Owed (s.afterDeliver i f) := by
  have hcase := hi.deliver hd hf hfirst
  have hout : ∀ g ∈ s.helper.stdout, g ∈ (s.afterDeliver i f).helper.stdout := by
    intro g hg
    rw [hi.stdout] at hg
    rcases hcase with ⟨hi', _⟩ | ⟨hi', _⟩
    · rw [hi'.stdout]
      exact hg
    · rw [hi'.stdout]
      obtain ⟨hs, hlt⟩ := mem_before.mp hg
      exact mem_before.mpr ⟨hs, Nat.lt_succ_of_lt hlt⟩
  have hold : ∀ p ∈ s.toFw, p.2.type = .ack → p.1 < eots s.sent ∧
      ∀ g ∈ s.sent, g.burst = p.1 → g ∈ (s.afterDeliver i f).helper.stdout := by
    intro p hp ht
    obtain ⟨h1, h2⟩ := h.flight p hp ht
    exact ⟨h1, fun g hg hb => hout g (h2 g hg hb)⟩
  refine ⟨?_, h.idle, ?_⟩
  · intro p hp ht
    rcases hcase with ⟨_, hflight, _⟩ | ⟨hi', hflight, _⟩ <;> rw [hflight] at hp
    · exact hold p hp ht
    · rcases List.mem_append.mp hp with hp | hp
      · exact hold p hp ht
      · rw [List.mem_singleton.mp hp]
        refine ⟨hi'.ended, fun g hg hb => ?_⟩
        rw [hi'.stdout]
        exact mem_before.mpr ⟨hg, Nat.lt_succ_of_le (Nat.le_of_eq hb)⟩
  · intro hpos
    obtain ⟨hw, hr⟩ := h.counted hpos
    exact ⟨fun g hg hb => hout g (hw g hg hb), hr⟩

/-- the last message of the helper is not an ACK -/
theorem Owed.death (h : Owed s) : Owed s.afterDeath := by
  refine ⟨?_, h.idle, fun hpos => ⟨(h.counted hpos).written, (h.counted hpos).received⟩⟩
  intro p hp ht
  rcases List.mem_append.mp hp with hp | hp
  · exact h.flight p hp ht
  · obtain ⟨m, hm, rfl⟩ := List.mem_map.mp hp
    rw [List.mem_singleton.mp hm] at ht
    cases ht

/-! ## runs -/

def Punctual (s : Session) : Prop :=
  Owed s ∧ ((∃ old cur n, Outbound s old cur ∧ Inbound s n ∧ Proper s) ∨ s.helper.alive = false)

theorem punctual_alive {a : SessionAct} (h : Owed s) (hd : Outbound s old cur) (hi : Inbound s n)
    (hp : Proper s) (hg : OnTime s a) (hs : s.step a = some t) : Punctual t := by
  by_cases hr : a = .recvTimeout
  · subst hr
    rw [expire_dead (hi.no_eot hg.data) hs]
    exact ⟨h.death, .inr rfl⟩
  · refine ⟨?_, .inl ((hd.moves hp hr hs).inbound hd hi hp hg.data)⟩
    cases a with
    | uart c =>
      cases hs
      exact ⟨h.flight, h.idle, fun hpos => ⟨(h.counted hpos).written, (h.counted hpos).received⟩⟩
    | task => exact h.task hs
    | ackTimeout => exact h.task hs
    | toHelper i =>
      obtain ⟨_, f, hf, rfl⟩ := deliver_some hs
      exact h.deliver hd hi hf (hg.data f hf)
    | toFw i => exact h.receive hg hs
    | recvTimeout => exact absurd rfl hr

theorem punctual_dead {a : SessionAct} (h : Owed s) (hdead : s.helper.alive = false)
    (hg : OnTime s a) (hs : s.step a = some t) : Punctual t := by
  refine ⟨?_, .inr (by rw [(dead_step hdead hs).1]; exact hdead)⟩
  cases a with
  | uart c =>
    cases hs
    exact ⟨h.flight, h.idle, fun hpos => ⟨(h.counted hpos).written, (h.counted hpos).received⟩⟩
  | task => exact h.task hs
  | ackTimeout => exact h.task hs
  | toHelper i =>
    have := (deliver_some hs).1
    rw [hdead] at this
    cases this
  | toFw i => exact h.receive hg hs
  | recvTimeout =>
    have hs' : s.expire = some t := hs
    rw [Session.expire, hdead] at hs'
    simp at hs'

end

/-- **A notification ends the wait of its own burst**, in every run whose data and ACKs are on
time: the burst is on stdout and its ACK has been received. -/
theorem notified_pairs {s t u : Session} (h0 : s.Start) (h : session.Reach OnTime s t)
    (hpc : t.fw.task.pc = .wait) (hstep : t.step .task = some u) : Acknowledged t := by
  have hinv : Punctual t := by
    refine h.inv ?_ ?_
    · exact ⟨Start.owed h0, .inl ⟨[], [], 0, Start.outbound h0, Start.inbound h0, Start.proper h0⟩⟩
    · rintro x a y ⟨ho, ⟨old, cur, n, hd, hi, hp⟩ | hdead⟩ hg hs
      · exact punctual_alive ho hd hi hp hg hs
      · exact punctual_dead ho hdead hg hs
  exact hinv.1.counted (notified_of_step hpc hstep)

/-- a burst that pairs with its ACK, one whose wait expires before it is delivered, and a third of
which the ACK overtakes the one still on the way -/
def pairedRun : List SessionAct :=
  List.flatten [[.uart 65], List.replicate 5 .task, [.toHelper 0, .toFw 0, .task, .uart 66],
    List.replicate 5 .task, [.ackTimeout, .uart 67], List.replicate 5 .task,
    [.toHelper 0, .toHelper 0, .toFw 1]]

/-- the wait of the first burst expires, its ACK arrives, the second burst is sent -/
def lateAckRun : List SessionAct :=
  List.flatten [[.uart 65], List.replicate 5 .task, [.toHelper 0, .ackTimeout, .toFw 0, .uart 66],
    List.replicate 5 .task]

instance (s : Session) (a : SessionAct) : Decidable (OnTime s a) :=
  decidable_of_iff (InTime s a ∧
    (match a with
    | .toFw i => s.toFw[i]?.all fun p => decide (p.2.type = .ack →
        s.fw.task.pc = .wait ∧ p.1 + 1 = eots s.sent)
    | _ => true) = true) <| by
  constructor
  · rintro ⟨h1, h2⟩
    refine ⟨h1, ?_⟩
    rintro i b m rfl hi
    simp only [hi, Option.all_some, decide_eq_true_eq] at h2
    exact h2
  · rintro ⟨h1, h2⟩
    refine ⟨h1, ?_⟩
    cases a with
    | toFw i =>
      rw [Option.all_eq_true]
      intro p hp
      exact decide_eq_true (h2 i p.1 p.2 rfl hp)
    | _ => rfl

theorem notified_pairs_third : ∃ t u, session.run (connect 16 32) pairedRun = some t ∧
    t.step .task = some u ∧ t.helper.stdoutBytes = [65, 66, 67] ∧ Acknowledged t := by
  have hrun : (session.run (connect 16 32) pairedRun).map (fun t =>
      (decide (t.fw.task.pc = .wait), (t.step .task).isSome, t.helper.stdoutBytes))
      = some (true, true, [65, 66, 67]) := by decide
  obtain ⟨t, ht, hb⟩ := Option.map_eq_some_iff.mp hrun
  obtain ⟨hpc, hb⟩ := Prod.mk.inj hb
  obtain ⟨hstep, hout⟩ := Prod.mk.inj hb
  obtain ⟨u, hu⟩ := Option.isSome_iff_exists.mp hstep
  have hguard : session.Along OnTime (connect 16 32) pairedRun := by decide
  exact ⟨t, u, ht, hu, hout, notified_pairs (connect_start 16 32)
    (Machine.run_reach hguard ht) (of_decide_eq_true hpc) hu⟩

theorem notified_pairs_fails : ¬ ∀ s t u : Session, s.Start → session.Reach Machine.Free s t →
    t.fw.task.pc = .wait → t.step .task = some u → Acknowledged t := by
  intro hall
  have hrun : (session.run (connect 16 32) lateAckRun).map (fun t =>
      (decide (t.fw.task.pc = .wait), (t.step .task).isSome,
        t.sent.all fun f => f.burst + 1 != eots t.sent || t.helper.stdout.contains f))
      = some (true, true, false) := by decide
  obtain ⟨t, ht, hb⟩ := Option.map_eq_some_iff.mp hrun
  obtain ⟨hpc, hb⟩ := Prod.mk.inj hb
  obtain ⟨hstep, hlost⟩ := Prod.mk.inj hb
  obtain ⟨u, hu⟩ := Option.isSome_iff_exists.mp hstep
  have hack := hall _ t u (connect_start 16 32) (Machine.run_free ht) (of_decide_eq_true hpc) hu
  have hwritten : (t.sent.all fun f =>
      f.burst + 1 != eots t.sent || t.helper.stdout.contains f) = true := by
    rw [List.all_eq_true]
    intro f hf
    by_cases hb : f.burst + 1 = eots t.sent
    · simpa [hb] using hack.written f hf hb
    · simp [hb]
  exact absurd (hlost.symm.trans hwritten) Bool.false_ne_true

end Bramble
