import Bramble.Session.Stream

/-!
# The two timers

The 500 ms wait of the firmware and the receive timer of the helper may expire, and late messages
and late ACKs arrive at any time.

* `timers_safe`        the data stays safe as long as no message is delivered before one of an
                       earlier burst, and the receive timer finds no `eot` of a burst that is still
                       in flight in part;
* `timers_safe_fails`  without that, a delivered payload is lost.
-/

namespace Bramble
open Session

/-! ## the data -/

/-- A DAT message is delivered only when no DAT message of an earlier burst is in flight, and the
receive timer expires only when the chunk array holds no `eot` or no DAT message of the burst of
that `eot` is in flight. -/
def InTime (s : Session) : SessionAct → Prop
  | .toHelper i => ∀ f, s.toHelper[i]? = some f → ∀ g ∈ s.toHelper, f.burst ≤ g.burst
  | .recvTimeout => ∀ c ∈ s.helper.chunk.toList, c.msg.eot = true →
      ∀ g ∈ s.toHelper, g.burst ≠ c.burst
  | _ => True

instance (s : Session) (a : SessionAct) : Decidable (InTime s a) := by
  cases a with
  | toHelper i =>
    exact decidable_of_iff
      ((s.toHelper[i]?.all fun f => s.toHelper.all fun g => f.burst ≤ g.burst) = true)
      (by simp [InTime, Option.all_eq_true])
  | recvTimeout =>
    unfold InTime
    infer_instance
  | _ => exact .isTrue trivial

def Timed (s : Session) : Prop :=
  (∃ old cur n, Outbound s old cur ∧ Inbound s n ∧ Proper s) ∨ s.helper.alive = false ∧ s.Safe

theorem Start.proper {s : Session} (h : s.Start) : Proper s := by
  intro p hp
  rw [h.toFw] at hp
  cases hp

theorem Start.timed {s : Session} (h : s.Start) : Timed s :=
  .inl ⟨[], [], 0, Start.outbound h, Start.inbound h, Start.proper h⟩

section
variable {s t : Session} {old cur : List Frame} {n : Nat}

/-- a burst with its `eot` in the chunk array has a message in flight -/
theorem Inbound.eot_missing (hi : Inbound s n) {c : Frame} (hc : c ∈ s.helper.chunk.toList)
    (he : c.msg.eot = true) : ∃ g ∈ s.toHelper, g.burst = c.burst := by
  rw [hi.chunk, slots] at hc
  rcases List.mem_append.mp hc with hc | hc
  · obtain ⟨f, hf, rfl⟩ := List.mem_map.mp hc
    by_cases hd : f ∈ s.toHelper
    · rw [if_neg (by simpa using hd)] at he
      cases he
    · rw [if_pos (by simpa using hd)] at he ⊢
      rw [(mem_ofBurst.mp hf).2]
      exact hi.missing (List.any_eq_true.mpr ⟨f, hf, he⟩)
  · rw [List.eq_of_mem_replicate hc] at he
    cases he

/-- the receive timer that expires in time finds no `eot` -/
theorem Inbound.no_eot (hi : Inbound s n) (hg : InTime s .recvTimeout) :
    hasEot s.helper.chunk.toList = false := by
  refine Bool.eq_false_iff.mpr fun he => ?_
  obtain ⟨c, hc, he⟩ := List.any_eq_true.mp he
  obtain ⟨g, hgm, hb⟩ := hi.eot_missing hc he
  exact hg c hc he g hgm hb

def Session.afterDeath (s : Session) : Session :=
  s.afterHelper ({ s.helper with recvTimer := false, died := some "receive timeout" },
    [s.helper.consoleDisconnect])

/-- the receive timer that finds no `eot` ends the helper; what it holds stays as it is -/
theorem expire_dead (he : hasEot s.helper.chunk.toList = false) (hs : s.expire = some t) :
    t = s.afterDeath := by
  unfold Session.expire at hs
  split at hs
  · cases hs
    unfold Session.afterDeath Helper.recvTimeoutCb
    simp only
    rw [chunkIsComplete_holes, he, if_neg Bool.false_ne_true]
    rfl
  · cases hs

theorem Inbound.afterDeath (hi : Inbound s n) (h : Outbound s old cur) :
    s.afterDeath.helper.alive = false ∧ s.afterDeath.Safe :=
  ⟨rfl, (hi.safe h.log).ordered, (hi.safe h.log).kept⟩

theorem dead_step {a : SessionAct} (hd : s.helper.alive = false) (hs : s.step a = some t) :
    t.helper = s.helper ∧ t.delivered = s.delivered := by
  have htask : ∀ ev, s.taskStep ev = some t → t.helper = s.helper ∧ t.delivered = s.delivered := by
    intro ev h
    obtain ⟨⟨fw, e⟩, _, rfl⟩ := Option.map_eq_some_iff.mp h
    cases e <;> exact ⟨rfl, rfl⟩
  cases a with
  | uart c =>
    cases hs
    exact ⟨rfl, rfl⟩
  | task => exact htask _ hs
  | ackTimeout => exact htask _ hs
  | toHelper i =>
    have := (deliver_some hs).1
    rw [hd] at this
    cases this
  | toFw i =>
    obtain ⟨_, _, rfl⟩ := Option.map_eq_some_iff.mp hs
    exact ⟨rfl, rfl⟩
  | recvTimeout =>
    have hs' : s.expire = some t := hs
    rw [Session.expire, hd] at hs'
    simp at hs'

/-- every move keeps the invariant, whenever the ACK wait is left -/
theorem Moves.inbound {a : SessionAct} (hm : Moves s old cur a t) (h : Outbound s old cur)
    (hi : Inbound s n) (hp : Proper s) (hg : InTime s a) :
    ∃ old' cur' n', Outbound t old' cur' ∧ Inbound t n' ∧ Proper t := by
  cases hm with
  | quiet fw taken _ _ hs => exact ⟨old, cur, n, hs, { hi with }, hp⟩
  | send m hpc => exact ⟨old, _, n, h.send hpc, hi.send h hpc, hp⟩
  | leave hl _ => exact ⟨old ++ cur, [], n, h.leave hl.1, { hi with }, hp⟩
  | deliver i f hf =>
    have hfirst : ∀ g ∈ s.toHelper, f.burst ≤ g.burst := hg f hf
    have hs := (h.deliver (hi.flight f (List.mem_of_getElem? hf)).1 i).1
    have hp' := hi.proper h hp hf hfirst
    rcases hi.deliver h hf hfirst with ⟨hi', _⟩ | ⟨hi', _⟩
    · exact ⟨old, cur, n, hs, hi', hp'⟩
    · exact ⟨old, cur, n + 1, hs, hi', hp'⟩
  | ack i b _ => exact ⟨old, cur, n, h.ack i b, hi.ack i b, hp.ack i b⟩

theorem timed_step {a : SessionAct} (h : Timed s) (hg : InTime s a) (hs : s.step a = some t) :
    Timed t := by
  rcases h with ⟨old, cur, n, hd, hi, hp⟩ | ⟨hdead, hsafe⟩
  · by_cases ha : a = .recvTimeout
    · subst ha
      rw [expire_dead (hi.no_eot hg) hs]
      exact .inr (hi.afterDeath hd)
    · exact .inl ((hd.moves hp ha hs).inbound hd hi hp hg)
  · obtain ⟨h1, h2⟩ := dead_step hdead hs
    refine .inr ⟨by rw [h1]; exact hdead, ?_, ?_⟩
    · rw [h1]
      exact hsafe.ordered
    · rw [h1, h2]
      exact hsafe.kept

end

/-- **Timers that expire in time never lose or reorder delivered data**, however early the ACK wait
is left. -/
theorem timers_safe {s t : Session} (h0 : s.Start) (h : session.Reach InTime s t) : t.Safe := by
  have hinv : Timed t := h.inv (Start.timed h0) fun _ _ _ hi hg hs => timed_step hi hg hs
  rcases hinv with ⟨_, _, _, hd, hi, _⟩ | ⟨_, hs⟩
  · exact hi.safe hd.log
  · exact hs

/-- a burst acknowledged in time, one whose wait expires with its first message in flight while the
next burst is sent, a late ACK, and a burst of which the last message arrives too late -/
def timelyRun : List SessionAct :=
  List.flatten [[.uart 65], List.replicate 5 .task, [.toHelper 0, .toFw 0, .task],
    List.replicate 9 (.uart 66), List.replicate 10 .task, [.toHelper 1, .ackTimeout, .uart 67],
    List.replicate 5 .task, [.toHelper 0, .toFw 0, .task, .toHelper 0],
    List.replicate 9 (.uart 68), List.replicate 10 .task, [.toHelper 0, .recvTimeout]]

set_option maxRecDepth 2000 in
theorem timers_safe_timely : ∃ t, session.run (connect 16 32) timelyRun = some t ∧ t.Safe ∧
    t.helper.stdoutBytes = 65 :: List.replicate 9 66 ++ [67] ∧ t.helper.alive = false := by
  have hrun : (session.run (connect 16 32) timelyRun).map (fun t =>
      (t.helper.stdoutBytes, t.helper.alive)) = some (65 :: List.replicate 9 66 ++ [67], false) := by
    decide
  obtain ⟨t, ht, hb⟩ := Option.map_eq_some_iff.mp hrun
  have hguard : session.Along InTime (connect 16 32) timelyRun := by decide
  obtain ⟨h1, h2⟩ := Prod.mk.inj hb
  exact ⟨t, ht, timers_safe (connect_start 16 32) (Machine.run_reach hguard ht), h1, h2⟩

/-- nine bytes, the second message of two delivered, the wait expires, the next burst follows -/
def mixedRun : List SessionAct :=
  List.flatten [List.replicate 9 (.uart 65), List.replicate 10 .task,
    [.toHelper 1, .ackTimeout, .uart 66], List.replicate 5 .task, [.toHelper 1]]

theorem timers_safe_fails :
    ¬ ∀ s t : Session, s.Start → session.Reach Machine.Free s t → t.Safe := by
  intro hall
  have hrun : (session.run (connect 16 32) mixedRun).map (fun t => t.delivered.all fun f =>
      t.helper.stdout.contains f || t.helper.chunk.toList.contains f) = some false := by decide
  obtain ⟨t, ht, hlost⟩ := Option.map_eq_some_iff.mp hrun
  have hsafe := hall _ t (connect_start 16 32) (Machine.run_free ht)
  have hkept : (t.delivered.all fun f =>
      t.helper.stdout.contains f || t.helper.chunk.toList.contains f) = true := by
    rw [List.all_eq_true]
    intro f hf
    simpa using hsafe.kept f hf
  exact absurd (hlost.symm.trans hkept) Bool.false_ne_true

end Bramble
