import Bramble.Firmware.Bursts
import Bramble.Session.Model

/-!
# Invariants of the stream

The DAT messages sent so far are `old ++ cur`: `old` are the bursts whose ACK wait has ended, `cur`
is the burst being sent or waited for.

* `Outbound`   the connection, the console task and the history of sent messages;
* `Inbound`  bursts before the `n`-th are on stdout, the helper holds exactly the messages of the
             `n`-th that are not in flight, and all later bursts are in flight as a whole;
* `Data`     both, with nothing of `old` in flight.

`Outbound.moves` says what one step can do; `Outbound.send`, `Outbound.leave`, `Inbound.send`,
`Inbound.deliver` say what the steps do to the invariants, whatever is in flight, and `Data.send`,
`Data.leave`, `Data.deliver` what follows for `Data`.
-/

namespace Bramble
open Session

/-! ## messages in flight -/

theorem mem_eraseIdx_nodup {α : Type*} [DecidableEq α] {l : List α} (h : l.Nodup) {i : Nat} {a : α}
    (hi : l[i]? = some a) (b : α) : b ∈ l.eraseIdx i ↔ b ∈ l ∧ b ≠ a := by
  obtain ⟨hlt, rfl⟩ := List.getElem?_eq_some_iff.mp hi
  rw [← h.erase_getElem i hlt, h.mem_erase_iff]
  exact And.comm

/-! ## counting bursts -/

theorem eots_nil : eots [] = 0 := rfl
theorem eots_append (a b : List Frame) : eots (a ++ b) = eots a + eots b := List.countP_append

theorem eots_single (f : Frame) : eots [f] = if f.msg.eot then 1 else 0 := by
  simp [eots, List.countP_cons]

theorem hasEot_append (a b : List Frame) : hasEot (a ++ b) = (hasEot a || hasEot b) :=
  List.any_append

theorem hasEot_single (f : Frame) : hasEot [f] = f.msg.eot := by simp [hasEot]

theorem eots_of_open {fs : List Frame} (h : hasEot fs = false) : eots fs = 0 := by
  rw [eots, List.countP_eq_zero]
  intro f hf
  have := List.any_eq_false.mp h f hf
  simpa using this

/-- a burst has at most one `eot` -/
theorem Numbered.eots {k : Nat} {fs : List Frame} (h : Numbered k fs) (he : hasEot fs = true) :
    Bramble.eots fs = 1 := by
  induction fs generalizing k with
  | nil => cases he
  | cons f fs ih =>
    obtain ⟨_, _, h3, h4⟩ := h
    have e : Bramble.eots (f :: fs) = Bramble.eots [f] + Bramble.eots fs := eots_append [f] fs
    rw [e, eots_single]
    cases hf : f.msg.eot with
    | true => rw [h3 hf, eots_nil, if_pos rfl]
    | false =>
      have he' : hasEot fs = true := by
        rw [← he]
        simp [hasEot, hf]
      rw [ih h4 he', if_neg Bool.false_ne_true]

/-! ## messages by burst -/

/-- the messages of burst `n` -/
def ofBurst (fs : List Frame) (n : Nat) : List Frame := fs.filter fun f => f.burst == n

/-- the messages of the bursts before burst `n` -/
def before (fs : List Frame) (n : Nat) : List Frame := fs.filter fun f => f.burst < n

theorem mem_ofBurst {fs : List Frame} {n : Nat} {f : Frame} :
    f ∈ ofBurst fs n ↔ f ∈ fs ∧ f.burst = n := by
  simp [ofBurst]

theorem mem_before {fs : List Frame} {n : Nat} {f : Frame} :
    f ∈ before fs n ↔ f ∈ fs ∧ f.burst < n := by
  simp [before]

theorem ofBurst_append (a b : List Frame) (n : Nat) :
    ofBurst (a ++ b) n = ofBurst a n ++ ofBurst b n := List.filter_append a b

theorem ofBurst_pos {f : Frame} {fs : List Frame} {n : Nat} (h : f.burst = n) :
    ofBurst (f :: fs) n = f :: ofBurst fs n := List.filter_cons_of_pos (by simpa using h)

theorem ofBurst_neg {f : Frame} {fs : List Frame} {n : Nat} (h : f.burst ≠ n) :
    ofBurst (f :: fs) n = ofBurst fs n := List.filter_cons_of_neg (by simpa using h)

theorem before_pos {f : Frame} {fs : List Frame} {n : Nat} (h : f.burst < n) :
    before (f :: fs) n = f :: before fs n := List.filter_cons_of_pos (by simpa using h)

theorem before_neg {f : Frame} {fs : List Frame} {n : Nat} (h : n ≤ f.burst) :
    before (f :: fs) n = before fs n := List.filter_cons_of_neg (by simpa using h)

theorem ofBurst_none (fs : List Frame) {n : Nat} (h : ∀ f ∈ fs, f.burst ≠ n) :
    ofBurst fs n = [] :=
  List.filter_eq_nil_iff.mpr fun f hf => by simpa using h f hf

theorem ofBurst_all {fs : List Frame} {n : Nat} (h : ∀ f ∈ fs, f.burst = n) : ofBurst fs n = fs :=
  List.filter_eq_self.mpr fun f hf => by simpa using h f hf

theorem before_none {fs : List Frame} {n : Nat} (h : ∀ f ∈ fs, n ≤ f.burst) : before fs n = [] :=
  List.filter_eq_nil_iff.mpr fun f hf => by simpa using h f hf

theorem before_all {fs : List Frame} {n : Nat} (h : ∀ f ∈ fs, f.burst < n) : before fs n = fs :=
  List.filter_eq_self.mpr fun f hf => by simpa using h f hf

/-- messages in the order of their bursts: burst `n` comes right after those before it -/
theorem before_succ {fs : List Frame} (h : fs.Pairwise fun f g => f.burst ≤ g.burst) (n : Nat) :
    before fs (n + 1) = before fs n ++ ofBurst fs n := by
  induction fs with
  | nil => rfl
  | cons f fs ih =>
    obtain ⟨hf, hfs⟩ := List.pairwise_cons.mp h
    have ih' := ih hfs
    rcases Nat.lt_trichotomy f.burst n with hlt | heq | hgt
    · rw [before_pos (Nat.lt_succ_of_lt hlt), before_pos hlt, ofBurst_neg (Nat.ne_of_lt hlt), ih',
        List.cons_append]
    · have hnone : before (f :: fs) n = [] :=
        before_none (List.forall_mem_cons.mpr ⟨Nat.le_of_eq heq.symm, fun g hg => heq ▸ hf g hg⟩)
      have hrest : before fs n = [] := before_none fun g hg => heq ▸ hf g hg
      rw [hnone, before_pos (heq ▸ Nat.lt_succ_self _), ofBurst_pos heq, ih', hrest]
      rfl
    · rw [before_neg hgt, before_neg (Nat.le_of_lt hgt), ofBurst_neg (Nat.ne_of_gt hgt), ih']

/-! ## the invariants -/

/-- the two parties are connected and running -/
structure Link (s : Session) : Prop where
  console : s.fw.console = ⟨s.helper.srcaddr, s.helper.objid, true⟩
  peer : s.helper.dstaddr = s.fw.srcaddr
  alive : s.helper.died = none
  awake : s.fw.task.suspended = false

/-- a DAT message from the firmware to this helper -/
def Addressed (h : Helper) (m : CanMsg) : Prop :=
  m.dst = h.srcaddr ∧ m.src = h.dstaddr ∧ m.object = h.objid ∧ m.type = .dat

structure Log (s : Session) (old cur : List Frame) : Prop where
  sent : s.sent = old ++ cur
  ids : ∀ (i : Nat) (f : Frame), s.sent[i]? = some f → f.id = i
  sorted : s.sent.Pairwise fun f g => f.burst ≤ g.burst
  oldBursts : ∀ f ∈ old, f.burst < eots old
  curBursts : ∀ f ∈ cur, f.burst = eots old
  closed : ∀ b, b < eots old → ∃ f ∈ old, f.msg.eot = true ∧ f.burst = b
  oldNum : ∀ b, Numbered 0 (ofBurst old b)
  num : Numbered 0 cur
  short : hasEot cur = false → cur.length ≤ 15
  addressed : ∀ f ∈ s.sent, Addressed s.helper f.msg
  bytes : s.taken = s.sent.flatMap Frame.payload ++ s.fw.task.pc.inHand

structure Outbound (s : Session) (old cur : List Frame) : Prop where
  link : Link s
  task : TaskOk s.fw cur.length (hasEot cur)
  log : Log s old cur

/-- What is in flight to the helper and what it holds, when `n` bursts have been written. -/
structure Inbound (s : Session) (n : Nat) : Prop where
  nodup : s.toHelper.Nodup
  flight : ∀ f ∈ s.toHelper, f ∈ s.sent ∧ n ≤ f.burst
  whole : ∀ f ∈ s.sent, n < f.burst → f ∈ s.toHelper
  delivered : ∀ f ∈ s.delivered, f ∈ s.sent ∧ f ∉ s.toHelper
  ended : n ≤ eots s.sent
  missing : hasEot (ofBurst s.sent n) = true → ∃ f ∈ s.toHelper, f.burst = n
  chunk : s.helper.chunk.toList = slots (ofBurst s.sent n) fun f => decide (f ∉ s.toHelper)
  stdout : s.helper.stdout = before s.sent n

/-- all of the burst has been sent and delivered -/
def Done (s : Session) (cur : List Frame) : Prop := hasEot cur = true ∧ s.toHelper = []

structure Data (s : Session) (old cur : List Frame) : Prop extends Outbound s old cur where
  rx : ∃ n, eots old ≤ n ∧ Inbound s n

/-- the action ends the ACK wait -/
def LeavesWait (s : Session) (a : SessionAct) : Prop :=
  s.fw.task.pc = .wait ∧ (a = .task ∨ a = .ackTimeout)

theorem slots_snoc {cur : List Frame} {D : Frame → Bool} {f : Frame} (hf : D f = false)
    (hlen : cur.length ≤ 15) : slots (cur ++ [f]) D = slots cur D := by
  have e : 16 - cur.length = (16 - (cur ++ [f]).length) + 1 := by
    rw [List.length_append, List.length_singleton]
    omega
  rw [slots, slots, List.map_append, List.map_singleton, hf, if_neg Bool.false_ne_true, e,
    List.replicate_succ, List.append_assoc]
  rfl

/-- a burst of which nothing has arrived leaves the chunk array empty -/
theorem slots_none {cur : List Frame} {D : Frame → Bool} (h : ∀ f ∈ cur, D f = false)
    (hlen : cur.length ≤ 16) : slots cur D = emptyChunk.toList := by
  have hzero : cur.map (fun f => if D f then f else Frame.zero) =
      List.replicate cur.length Frame.zero := by
    rw [← List.map_const']
    exact List.map_congr_left fun f hf => by rw [h f hf, if_neg Bool.false_ne_true]
  rw [slots, hzero, List.replicate_append_replicate, Nat.add_sub_cancel' hlen]
  rfl

theorem Start.outbound {s : Session} (h : s.Start) : Outbound s [] [] where
  link := ⟨h.console, h.peer, h.alive, by rw [h.task]⟩
  task := by
    unfold TaskOk
    rw [h.task]
    exact ⟨rfl, rfl⟩
  log := by
    refine ⟨h.sent, ?_, ?_, ?_, ?_, ?_, fun _ => trivial, trivial, fun _ => by simp, ?_, ?_⟩
    · intro i f hf
      rw [h.sent] at hf
      cases hf
    · rw [h.sent]
      exact List.Pairwise.nil
    · intro f hf
      cases hf
    · intro f hf
      cases hf
    · intro b hb
      cases hb
    · intro f hf
      rw [h.sent] at hf
      cases hf
    · rw [h.taken, h.sent, h.task]
      rfl

theorem Start.inbound {s : Session} (h : s.Start) : Inbound s 0 := by
  refine ⟨?_, ?_, ?_, ?_, Nat.zero_le _, ?_, ?_, ?_⟩
  · rw [h.toHelper]
    exact List.nodup_nil
  · intro f hf
    rw [h.toHelper] at hf
    cases hf
  · intro f hf
    rw [h.sent] at hf
    cases hf
  · intro f hf
    rw [h.delivered] at hf
    cases hf
  · intro he
    rw [h.sent] at he
    cases he
  · rw [h.chunk, h.sent]
    rfl
  · rw [h.stdout, h.sent]
    rfl

theorem Start.data {s : Session} (h : s.Start) : Data s [] [] :=
  ⟨Start.outbound h, 0, Nat.le_refl 0, Start.inbound h⟩

/-! ## the order of sending -/

section
variable {s : Session} {old cur : List Frame} {n : Nat}

theorem Log.pairwise (h : Log s old cur) : s.sent.Pairwise fun f g => f.id < g.id := by
  rw [List.pairwise_iff_getElem]
  intro i j hi hj hij
  rw [h.ids i _ (List.getElem?_eq_getElem hi), h.ids j _ (List.getElem?_eq_getElem hj)]
  exact hij

theorem Log.label_fresh (h : Log s old cur) (m : CanMsg) : s.label m ∉ s.sent := by
  intro hm
  obtain ⟨i, hi, e⟩ := List.getElem_of_mem hm
  have h1 := h.ids i _ (List.getElem?_eq_getElem hi)
  rw [e] at h1
  have h2 : (s.label m).id = s.sent.length := rfl
  omega

theorem Log.burst_le (h : Log s old cur) {f : Frame} (hf : f ∈ s.sent) : f.burst ≤ eots old := by
  rw [h.sent] at hf
  rcases List.mem_append.mp hf with hf | hf
  · exact Nat.le_of_lt (h.oldBursts f hf)
  · exact Nat.le_of_eq (h.curBursts f hf)

theorem Log.ofBurst_cur (h : Log s old cur) : ofBurst s.sent (eots old) = cur := by
  rw [h.sent, ofBurst_append, ofBurst_none _ fun f hf => Nat.ne_of_lt (h.oldBursts f hf),
    ofBurst_all h.curBursts, List.nil_append]

theorem Log.ofBurst_old (h : Log s old cur) (hn : n ≠ eots old) :
    ofBurst s.sent n = ofBurst old n := by
  rw [h.sent, ofBurst_append, ofBurst_none cur, List.append_nil]
  intro f hf
  rw [h.curBursts f hf]
  exact hn.symm

theorem Log.before_cur (h : Log s old cur) : before s.sent (eots old) = old := by
  have hcur : before cur (eots old) = [] :=
    before_none fun f hf => Nat.le_of_eq (h.curBursts f hf).symm
  have hsplit : before (old ++ cur) (eots old) = before old (eots old) ++ before cur (eots old) :=
    List.filter_append old cur
  rw [h.sent, hsplit, hcur, before_all h.oldBursts, List.append_nil]

theorem Log.before_all (h : Log s old cur) : before s.sent (eots old + 1) = old ++ cur := by
  rw [before_succ h.sorted, h.before_cur, h.ofBurst_cur]

theorem Log.numbered (h : Log s old cur) (n : Nat) : Numbered 0 (ofBurst s.sent n) := by
  by_cases hn : n = eots old
  · rw [hn, h.ofBurst_cur]
    exact h.num
  · rw [h.ofBurst_old hn]
    exact h.oldNum n

/-- a burst has its `eot` exactly if it is not the one being sent -/
theorem Log.ended_iff (h : Log s old cur) (n : Nat) :
    hasEot (ofBurst s.sent n) = true ↔ n < eots s.sent := by
  have hsum : eots s.sent = eots old + eots cur := by rw [h.sent, eots_append]
  rcases Nat.lt_trichotomy n (eots old) with hlt | rfl | hgt
  · refine ⟨fun _ => by omega, fun _ => ?_⟩
    obtain ⟨f, hf, he, hb⟩ := h.closed n hlt
    rw [h.ofBurst_old (Nat.ne_of_lt hlt)]
    exact List.any_eq_true.mpr ⟨f, mem_ofBurst.mpr ⟨hf, hb⟩, he⟩
  · rw [h.ofBurst_cur, hsum]
    by_cases he : hasEot cur = true
    · rw [h.num.eots he]
      exact ⟨fun _ => Nat.lt_succ_self _, fun _ => he⟩
    · rw [eots_of_open (Bool.eq_false_iff.mpr he)]
      exact ⟨fun he' => absurd he' he, fun hlt => absurd hlt (Nat.lt_irrefl _)⟩
  · have hnone : ofBurst s.sent n = [] :=
      ofBurst_none _ fun f hf => Nat.ne_of_lt (Nat.lt_of_le_of_lt (h.burst_le hf) hgt)
    have hle : eots cur ≤ 1 := by
      by_cases he : hasEot cur = true
      · exact Nat.le_of_eq (h.num.eots he)
      · rw [eots_of_open (Bool.eq_false_iff.mpr he)]
        exact Nat.zero_le 1
    rw [hnone]
    exact ⟨fun he => absurd he Bool.false_ne_true, fun hlt => by omega⟩

/-- **The data received so far is in order and nothing of it is lost.** -/
theorem Inbound.safe (hi : Inbound s n) (h : Log s old cur) : s.Safe := by
  refine ⟨by rw [hi.stdout]; exact h.pairwise.filter _, fun f hf => ?_⟩
  obtain ⟨hs, hout⟩ := hi.delivered f hf
  have hle : f.burst ≤ n := Nat.not_lt.mp fun hlt => hout (hi.whole f hs hlt)
  rcases Nat.lt_or_eq_of_le hle with hlt | heq
  · exact .inl (by rw [hi.stdout]; exact mem_before.mpr ⟨hs, hlt⟩)
  · refine .inr ?_
    rw [hi.chunk, slots, List.mem_append]
    refine .inl (List.mem_map.mpr ⟨f, mem_ofBurst.mpr ⟨hs, heq⟩, ?_⟩)
    rw [if_pos (by simpa using hout)]

/-! ## steps of the console task -/

/-- a step of the firmware that sends nothing and stays in the burst -/
theorem Outbound.of_fw (h : Outbound s old cur) {fw : Fw} {taken : List UInt8}
    (hc : fw.console = s.fw.console) (ha : fw.srcaddr = s.fw.srcaddr)
    (hs : fw.task.suspended = false) (ht : TaskOk fw cur.length (hasEot cur))
    (hb : taken = s.sent.flatMap Frame.payload ++ fw.task.pc.inHand) :
    Outbound { s with fw := fw, taken := taken } old cur where
  link := ⟨hc.trans h.link.console, h.link.peer.trans ha.symm, h.link.alive, hs⟩
  task := ht
  log := { h.log with bytes := hb }

theorem Outbound.built (h : Outbound s old cur) {m : CanMsg} (hpc : s.fw.task.pc = .built m) :
    hasEot cur = false ∧ s.fw.task.seq = cur.length + 1 ∧ m.seq.val = cur.length ∧ 0 < m.dlen ∧
      (m.eot = false → cur.length < 15) ∧ Addressed s.helper m := by
  have ht := h.task
  unfold TaskOk at ht
  rw [hpc] at ht
  obtain ⟨he, hseq, hmseq, hd, hlt, hdst, hsrc, hty, hobj⟩ := ht
  have hcon := h.link.console
  refine ⟨he, hseq, hmseq, hd, hlt, ?_, ?_, ?_, hty⟩
  · rw [hdst, hcon]
  · rw [hsrc, h.link.peer]
  · rw [hobj, hcon]

/-- the state after `send_msg` accepted `m` -/
def Session.afterSend (s : Session) (m : CanMsg) : Session :=
  s.afterTask (s.fw.goto (if m.eot then .wait else .recv)) (.sent m)

theorem afterSend_ids (h : Log s old cur) (m : CanMsg) (i : Nat) (f : Frame)
    (hf : (s.sent ++ [s.label m])[i]? = some f) : f.id = i := by
  by_cases hi : i < s.sent.length
  · rw [List.getElem?_append_left hi] at hf
    exact h.ids i f hf
  · rw [List.getElem?_append_right (by omega)] at hf
    obtain ⟨hlt, he⟩ := List.getElem?_eq_some_iff.mp hf
    have h1 : i - s.sent.length < 1 := hlt
    have hid : (s.label m).id = s.sent.length := rfl
    rw [List.getElem_singleton] at he
    rw [← he, hid]
    omega

/-- the message built belongs to the burst being sent -/
theorem Outbound.label_burst (h : Outbound s old cur) {m : CanMsg} (hpc : s.fw.task.pc = .built m) :
    (s.label m).burst = eots old ∧ eots s.sent = eots old := by
  have heots : eots s.sent = eots old := by
    rw [h.log.sent, eots_append, eots_of_open (h.built hpc).1, Nat.add_zero]
  exact ⟨heots, heots⟩

theorem Log.send (h : Outbound s old cur) {m : CanMsg} (hpc : s.fw.task.pc = .built m) :
    Log (s.afterSend m) old (cur ++ [s.label m]) := by
  obtain ⟨he, hseq, hmseq, hd, hlt, hadr⟩ := h.built hpc
  have hburst := (h.label_burst hpc).1
  have hhand : (s.afterSend m).fw.task.pc.inHand = [] := by
    show (if m.eot = true then TaskPc.wait else TaskPc.recv).inHand = []
    cases m.eot <;> rfl
  refine ⟨?_, afterSend_ids h.log m, ?_, h.log.oldBursts, ?_, h.log.closed, h.log.oldNum, ?_, ?_,
    ?_, ?_⟩
  · show s.sent ++ [s.label m] = _
    rw [h.log.sent, List.append_assoc]
  · show (s.sent ++ [s.label m]).Pairwise _
    rw [List.pairwise_append]
    refine ⟨h.log.sorted, List.pairwise_singleton _ _, fun f hf g hg => ?_⟩
    rw [List.mem_singleton.mp hg, hburst]
    exact h.log.burst_le hf
  · intro f hf
    rcases List.mem_append.mp hf with hf | hf
    · exact h.log.curBursts f hf
    · rw [List.mem_singleton.mp hf, hburst]
  · exact h.log.num.append he (by rw [Nat.zero_add]; exact hmseq) hd
  · intro ho
    rw [hasEot_append, he, Bool.false_or, hasEot_single] at ho
    have := hlt ho
    rw [List.length_append, List.length_singleton]
    omega
  · intro f hf
    rcases List.mem_append.mp (show f ∈ s.sent ++ [s.label m] from hf) with hf | hf
    · exact h.log.addressed f hf
    · rw [List.mem_singleton.mp hf]
      exact hadr
  · rw [hhand, List.append_nil]
    show s.taken = (s.sent ++ [s.label m]).flatMap Frame.payload
    rw [h.log.bytes, hpc, List.flatMap_append, List.flatMap_singleton]
    rfl

/-- **A message is sent**: it joins the burst. -/
theorem Outbound.send (h : Outbound s old cur) {m : CanMsg} (hpc : s.fw.task.pc = .built m) :
    Outbound (s.afterSend m) old (cur ++ [s.label m]) := by
  obtain ⟨he, hseq, _⟩ := h.built hpc
  refine ⟨⟨h.link.console, h.link.peer, h.link.alive, h.link.awake⟩, ?_, Log.send h hpc⟩
  rw [hasEot_append, he, Bool.false_or, hasEot_single, List.length_append, List.length_singleton]
  exact h.task.sent hpc

/-- a message of the burst being sent changes neither what is on stdout nor the chunk array -/
theorem Inbound.send (hi : Inbound s n) (h : Outbound s old cur) {m : CanMsg}
    (hpc : s.fw.task.pc = .built m) : Inbound (s.afterSend m) n := by
  obtain ⟨hburst, heots⟩ := h.label_burst hpc
  have hfresh := h.log.label_fresh m
  have hnf : s.label m ∉ s.toHelper := fun hm => hfresh (hi.flight _ hm).1
  have hn : n ≤ eots old := heots ▸ hi.ended
  have hflight : (s.afterSend m).toHelper = s.toHelper ++ [s.label m] := rfl
  have hsent : (s.afterSend m).sent = s.sent ++ [s.label m] := rfl
  have hof : n ≠ eots old → ofBurst (s.afterSend m).sent n = ofBurst s.sent n := by
    intro hne
    rw [hsent, ofBurst_append, ofBurst_none [s.label m], List.append_nil]
    intro f hf
    rw [List.mem_singleton.mp hf, hburst]
    exact hne.symm
  refine ⟨?_, ?_, ?_, ?_, ?_, ?_, ?_, ?_⟩
  · rw [hflight, List.nodup_append]
    refine ⟨hi.nodup, List.nodup_singleton _, fun a ha b hb hab => ?_⟩
    rw [List.mem_singleton.mp hb] at hab
    exact hnf (hab ▸ ha)
  · intro f hf
    rw [hsent]
    rcases List.mem_append.mp (hflight ▸ hf) with hf | hf
    · exact ⟨List.mem_append_left _ (hi.flight f hf).1, (hi.flight f hf).2⟩
    · refine ⟨List.mem_append_right _ hf, ?_⟩
      rw [List.mem_singleton.mp hf, hburst]
      exact hn
  · intro f hf hlt
    rw [hflight]
    rcases List.mem_append.mp (hsent ▸ hf) with hf | hf
    · exact List.mem_append_left _ (hi.whole f hf hlt)
    · exact List.mem_append_right _ hf
  · intro f hf
    obtain ⟨hs, hout⟩ := hi.delivered f hf
    rw [hsent, hflight]
    refine ⟨List.mem_append_left _ hs, fun hm => ?_⟩
    rcases List.mem_append.mp hm with hm | hm
    · exact hout hm
    · exact hfresh (List.mem_singleton.mp hm ▸ hs)
  · rw [hsent, eots_append]
    exact Nat.le_trans hi.ended (Nat.le_add_right _ _)
  · intro he
    rw [hflight]
    by_cases hne : n = eots old
    · exact ⟨s.label m, List.mem_append_right _ (List.mem_singleton_self _), hburst.trans hne.symm⟩
    · rw [hof hne] at he
      obtain ⟨f, hf, hb⟩ := hi.missing he
      exact ⟨f, List.mem_append_left _ hf, hb⟩
  · show s.helper.chunk.toList = _
    have hcongr : slots (ofBurst s.sent n) (fun f => decide (f ∉ s.toHelper)) =
        slots (ofBurst s.sent n) fun f => decide (f ∉ s.toHelper ++ [s.label m]) := by
      refine slots_congr fun f hf => ?_
      have hne : f ≠ s.label m := fun e => hfresh (e ▸ (mem_ofBurst.mp hf).1)
      simp [hne]
    rw [hi.chunk, hflight, hcongr]
    by_cases hne : n = eots old
    · have hnew : ofBurst [s.label m] n = [s.label m] :=
        ofBurst_all fun f hf => by rw [List.mem_singleton.mp hf, hburst, hne]
      have hshort : (ofBurst s.sent n).length ≤ 15 := by
        rw [hne, h.log.ofBurst_cur]
        exact h.log.short (h.built hpc).1
      rw [hsent, ofBurst_append, hnew, slots_snoc (by simp) hshort]
    · rw [hof hne]
  · have hnone : before [s.label m] n = [] := by
      refine before_none fun f hf => ?_
      rw [List.mem_singleton.mp hf, hburst]
      exact hn
    have hsplit : before (s.sent ++ [s.label m]) n = before s.sent n ++ before [s.label m] n :=
      List.filter_append _ _
    rw [hsent, hsplit, hnone, List.append_nil]
    exact hi.stdout

theorem Data.of_outbound (h : Data s old cur) {fw : Fw} {taken : List UInt8}
    (hs : Outbound { s with fw := fw, taken := taken } old cur) :
    Data { s with fw := fw, taken := taken } old cur := by
  obtain ⟨n, hn, hi⟩ := h.rx
  exact ⟨hs, n, hn, { hi with }⟩

theorem Data.send (h : Data s old cur) {m : CanMsg} (hpc : s.fw.task.pc = .built m) :
    Data (s.afterSend m) old (cur ++ [s.label m]) := by
  obtain ⟨n, hn, hi⟩ := h.rx
  exact ⟨h.toOutbound.send hpc, n, hn, hi.send h.toOutbound hpc⟩

/-! ## the end of an ACK wait -/

theorem Log.leave_bursts (h : Log s old cur) (he : hasEot cur = true) :
    eots (old ++ cur) = eots old + 1 ∧ ∀ f ∈ old ++ cur, f.burst < eots (old ++ cur) := by
  have heots : eots (old ++ cur) = eots old + 1 := by rw [eots_append, h.num.eots he]
  refine ⟨heots, fun f hf => ?_⟩
  rw [heots]
  exact Nat.lt_succ_of_le (h.burst_le (h.sent ▸ hf))

theorem Log.leave (h : Log s old cur) (he : hasEot cur = true) (hpc : s.fw.task.pc = .wait) :
    Log { s with fw := s.fw.endWait } (old ++ cur) [] := by
  obtain ⟨heots, hlt⟩ := h.leave_bursts he
  refine ⟨by rw [List.append_nil]; exact h.sent, h.ids, h.sorted, hlt,
    fun f hf => absurd hf List.not_mem_nil, ?_, ?_, trivial, fun _ => Nat.zero_le _, h.addressed, ?_⟩
  · intro b hb
    rw [heots] at hb
    by_cases hlt : b < eots old
    · obtain ⟨f, hf, h1, h2⟩ := h.closed b hlt
      exact ⟨f, List.mem_append_left _ hf, h1, h2⟩
    · obtain ⟨f, hf, h1⟩ := List.any_eq_true.mp he
      have hb' : b = eots old := by omega
      exact ⟨f, List.mem_append_right _ hf, h1, by rw [h.curBursts f hf, hb']⟩
  · intro b
    rw [← h.sent]
    exact h.numbered b
  · show s.taken = _
    rw [h.bytes, hpc]
    rfl

theorem Outbound.wait_iff (h : Outbound s old cur) : s.fw.task.pc = .wait ↔ hasEot cur = true := by
  have ht := h.task
  unfold TaskOk at ht
  cases hpc : s.fw.task.pc with
  | wait =>
    rw [hpc] at ht
    exact ⟨fun _ => ht, fun _ => rfl⟩
  | _ =>
    rw [hpc] at ht
    constructor
    · intro hw
      cases hw
    · intro he
      exact absurd (ht.1.symm.trans he) Bool.false_ne_true

/-- **An ACK wait ends**: the burst is closed, whatever of it is still in flight. -/
theorem Outbound.leave (h : Outbound s old cur) (hpc : s.fw.task.pc = .wait) :
    Outbound { s with fw := s.fw.endWait } (old ++ cur) [] :=
  ⟨⟨h.link.console, h.link.peer, h.link.alive, h.link.awake⟩, ⟨rfl, rfl⟩,
    h.log.leave (h.wait_iff.mp hpc) hpc⟩

/-! ## a delivery to the helper -/

theorem canCb_dat {h : Helper} {f : Frame} (ha : Addressed h f.msg) :
    h.canCb f = h.handleRecvDat f := by
  obtain ⟨hdst, hsrc, hobj, hty⟩ := ha
  unfold Helper.canCb
  simp only
  rw [if_pos ⟨hdst, hsrc⟩, if_pos ⟨hobj, hty⟩]

/-- the state after the `i`-th message in flight, `f`, has reached the helper -/
def Session.afterDeliver (s : Session) (i : Nat) (f : Frame) : Session :=
  { s with toHelper := s.toHelper.eraseIdx i, delivered := s.delivered ++ [f] }.afterHelper
    (s.helper.canCb f)

theorem Outbound.deliver (h : Outbound s old cur) {f : Frame} (hf : f ∈ s.sent) (i : Nat) :
    Outbound (s.afterDeliver i f) old cur ∧
      (s.afterDeliver i f).helper.consoleSendAck = s.helper.consoleSendAck := by
  have hrest : (s.afterDeliver i f).helper.srcaddr = s.helper.srcaddr ∧
      (s.afterDeliver i f).helper.dstaddr = s.helper.dstaddr ∧
      (s.afterDeliver i f).helper.objid = s.helper.objid ∧
      (s.afterDeliver i f).helper.died = s.helper.died := by
    show (s.helper.canCb f).1.srcaddr = _ ∧ (s.helper.canCb f).1.dstaddr = _ ∧
      (s.helper.canCb f).1.objid = _ ∧ (s.helper.canCb f).1.died = _
    rw [canCb_dat (h.log.addressed f hf)]
    unfold Helper.handleRecvDat
    simp only
    split <;> exact ⟨rfl, rfl, rfl, rfl⟩
  obtain ⟨hsrc, hdst, hobj, hdied⟩ := hrest
  refine ⟨⟨⟨?_, hdst.trans h.link.peer, hdied.trans h.link.alive, h.link.awake⟩, h.task,
    { h.log with addressed := ?_ }⟩, ?_⟩
  · rw [hsrc, hobj]
    exact h.link.console
  · intro g hg
    unfold Addressed
    rw [hsrc, hdst, hobj]
    exact h.log.addressed g hg
  · unfold Helper.consoleSendAck
    rw [hsrc, hdst, hobj]

/-- What is delivered with nothing of an earlier burst in flight is of the burst in the chunk
array. -/
theorem Inbound.first (hi : Inbound s n) (h : Log s old cur) {f : Frame} (hf : f ∈ s.toHelper)
    (hfirst : ∀ g ∈ s.toHelper, f.burst ≤ g.burst) : f.burst = n := by
  obtain ⟨hs, hn⟩ := hi.flight f hf
  rcases Nat.lt_or_eq_of_le hn with hlt | heq
  · have hle := h.burst_le hs
    have hsum : eots s.sent = eots old + eots cur := by rw [h.sent, eots_append]
    obtain ⟨g, hg, hb⟩ := hi.missing ((h.ended_iff n).mpr (by omega))
    have := hfirst g hg
    omega
  · exact heq.symm

/-- after the delivery of `f`, the messages of the burst that have arrived -/
theorem arrived_deliver (hi : Inbound s n) (fs : List Frame) {i : Nat} {f : Frame}
    (hf : s.toHelper[i]? = some f) :
    slots fs (fun g => decide (g ∉ s.toHelper) || g == f)
      = slots fs (fun g => decide (g ∉ s.toHelper.eraseIdx i)) := by
  apply slots_congr
  intro g _
  have := mem_eraseIdx_nodup hi.nodup hf g
  by_cases hgf : g = f
  · subst hgf
    simp [this]
  · by_cases hg : g ∈ s.toHelper <;> simp [this, hgf, hg]

theorem all_arrived_iff (hi : Inbound s n) {i : Nat} {f : Frame} (hf : s.toHelper[i]? = some f) :
    ((ofBurst s.sent n).all fun g => decide (g ∉ s.toHelper) || g == f) = true ↔
      ∀ g ∈ s.toHelper.eraseIdx i, g.burst ≠ n := by
  have hmem := mem_eraseIdx_nodup hi.nodup hf
  rw [List.all_eq_true]
  constructor
  · intro hall g hg hb
    have hg' := (hmem g).mp hg
    have := hall g (mem_ofBurst.mpr ⟨(hi.flight g hg'.1).1, hb⟩)
    simp [hg'.1, hg'.2] at this
  · intro hnone g hg
    by_cases hgf : g = f
    · simp [hgf]
    · have : g ∉ s.toHelper := fun hm =>
        hnone g ((hmem g).mpr ⟨hm, hgf⟩) (mem_ofBurst.mp hg).2
      simp [this]

theorem delivered_deliver (hi : Inbound s n) {i : Nat} {f : Frame} (hf : s.toHelper[i]? = some f) :
    ∀ g ∈ s.delivered ++ [f], g ∈ s.sent ∧ g ∉ s.toHelper.eraseIdx i := by
  have hmem := mem_eraseIdx_nodup hi.nodup hf
  have hin : f ∈ s.toHelper := List.mem_of_getElem? hf
  intro g hg
  rcases List.mem_append.mp hg with hg | hg
  · obtain ⟨hs, hout⟩ := hi.delivered g hg
    exact ⟨hs, fun hm => hout ((hmem g).mp hm).1⟩
  · rw [List.mem_singleton.mp hg]
    exact ⟨(hi.flight f hin).1, fun hm => ((hmem f).mp hm).2 rfl⟩

/-- an arrival with some of the burst still to come is stored -/
theorem Inbound.deliver_more (hi : Inbound s n) (h : Outbound s old cur) {i : Nat} {f : Frame}
    (hf : s.toHelper[i]? = some f) (hb : f.burst = n)
    (hmore : hasEot (ofBurst s.sent n) = true → ∃ g ∈ s.toHelper.eraseIdx i, g.burst = n) :
    Inbound (s.afterDeliver i f) n ∧ (s.afterDeliver i f).toFw = s.toFw ∧
      (s.afterDeliver i f).acksOut = s.acksOut := by
  have hin : f ∈ s.toHelper := List.mem_of_getElem? hf
  have hsent := (hi.flight f hin).1
  have hcur : f ∈ ofBurst s.sent n := mem_ofBurst.mpr ⟨hsent, hb⟩
  have hincomplete : (hasEot (ofBurst s.sent n) &&
      (ofBurst s.sent n).all fun g => decide (g ∉ s.toHelper) || g == f) = false := by
    refine Bool.eq_false_iff.mpr fun hall => ?_
    obtain ⟨he, hall⟩ := Bool.and_eq_true_iff.mp hall
    obtain ⟨g, hg, hgb⟩ := hmore he
    exact (all_arrived_iff hi hf).mp hall g hg hgb
  have hcb : s.helper.canCb f = (s.helper.store f, []) := by
    rw [canCb_dat (h.log.addressed f hsent)]
    exact handleRecvDat_more hi.chunk (h.log.numbered n) hcur hincomplete
  have ht : s.afterDeliver i f = { s with
      helper := s.helper.store f, toHelper := s.toHelper.eraseIdx i,
      delivered := s.delivered ++ [f] } := by
    unfold Session.afterDeliver
    rw [hcb]
    simp [Session.afterHelper]
  rw [ht]
  have hmem := mem_eraseIdx_nodup hi.nodup hf
  refine ⟨⟨hi.nodup.eraseIdx i, ?_, ?_, delivered_deliver hi hf, hi.ended, hmore, ?_, hi.stdout⟩,
    rfl, rfl⟩
  · intro g hg
    exact hi.flight g ((hmem g).mp hg).1
  · intro g hg hlt
    refine (hmem g).mpr ⟨hi.whole g hg hlt, ?_⟩
    rintro rfl
    omega
  · show (s.helper.store f).chunk.toList = _
    rw [store_slots hi.chunk (h.log.numbered n) hcur]
    exact arrived_deliver hi _ hf

theorem lastBurst_append {h : Helper} {before cur : List Frame} (hout : h.stdout = before ++ cur)
    (he : hasEot cur = true) (hb : ∀ f ∈ cur, f.burst = n) : lastBurst h = n := by
  have hne : cur ≠ [] := by
    intro e
    rw [e] at he
    cases he
  have hlast : h.stdout.getLast? = some (cur.getLast hne) := by
    rw [hout, List.getLast?_append, List.getLast?_eq_some_getLast hne]
    rfl
  unfold lastBurst
  rw [hlast]
  exact hb _ (List.getLast_mem hne)

/-- **the last arrival of the burst**: it is written and acknowledged, and the next burst is the
one that the chunk array waits for -/
theorem Inbound.deliver_last (hi : Inbound s n) (h : Outbound s old cur) {i : Nat} {f : Frame}
    (hf : s.toHelper[i]? = some f) (hb : f.burst = n) (he : hasEot (ofBurst s.sent n) = true)
    (hnone : ∀ g ∈ s.toHelper.eraseIdx i, g.burst ≠ n) :
    Inbound (s.afterDeliver i f) (n + 1) ∧
      (s.afterDeliver i f).toFw = s.toFw ++ [(n, s.helper.consoleSendAck)] ∧
      (s.afterDeliver i f).acksOut = s.acksOut ++ [n] := by
  have hin : f ∈ s.toHelper := List.mem_of_getElem? hf
  have hsent := (hi.flight f hin).1
  have hcur : f ∈ ofBurst s.sent n := mem_ofBurst.mpr ⟨hsent, hb⟩
  have hmem := mem_eraseIdx_nodup hi.nodup hf
  have hcb : s.helper.canCb f = ({ s.helper with
      stdout := before s.sent n ++ ofBurst s.sent n, chunk := emptyChunk, recvTimer := false },
      [s.helper.consoleSendAck]) := by
    rw [canCb_dat (h.log.addressed f hsent), ← hi.stdout]
    exact handleRecvDat_last hi.chunk (h.log.numbered n) hcur he ((all_arrived_iff hi hf).mpr hnone)
  have hlast : lastBurst { s.helper with
      stdout := before s.sent n ++ ofBurst s.sent n, chunk := emptyChunk, recvTimer := false } = n :=
    lastBurst_append rfl he fun g hg => (mem_ofBurst.mp hg).2
  have ht : s.afterDeliver i f = { s with
      helper := { s.helper with
        stdout := before s.sent n ++ ofBurst s.sent n, chunk := emptyChunk, recvTimer := false }
      toHelper := s.toHelper.eraseIdx i
      toFw := s.toFw ++ [(n, s.helper.consoleSendAck)]
      delivered := s.delivered ++ [f]
      acksOut := s.acksOut ++ [n] } := by
    unfold Session.afterDeliver
    rw [hcb]
    simp only [Session.afterHelper, hlast]
    rfl
  rw [ht]
  -- a message of a later burst is in flight, and it is not the one that has just arrived
  have hlater : ∀ g ∈ s.sent, n < g.burst → g ∈ s.toHelper.eraseIdx i := by
    intro g hg hlt
    refine (hmem g).mpr ⟨hi.whole g hg hlt, ?_⟩
    rintro rfl
    omega
  refine ⟨⟨hi.nodup.eraseIdx i, ?_, fun g hg hlt => hlater g hg (Nat.lt_of_succ_lt hlt),
    delivered_deliver hi hf, (h.log.ended_iff n).mp he, ?_, ?_, ?_⟩, rfl, rfl⟩
  · intro g hg
    obtain ⟨hs, hle⟩ := hi.flight g ((hmem g).mp hg).1
    exact ⟨hs, Nat.lt_of_le_of_ne hle (hnone g hg).symm⟩
  · intro he'
    obtain ⟨g, hg, _⟩ := List.any_eq_true.mp he'
    obtain ⟨hs, hgb⟩ := mem_ofBurst.mp hg
    exact ⟨g, hlater g hs (by omega), hgb⟩
  · refine (slots_none (fun g hg => ?_) (h.log.numbered (n + 1)).length_le).symm
    obtain ⟨hs, hgb⟩ := mem_ofBurst.mp hg
    have := hlater g hs (by omega)
    simpa using this
  · exact (before_succ h.log.sorted n).symm

/-- **A delivery** with nothing of an earlier burst in flight: the message is stored, or completes
the burst. -/
theorem Inbound.deliver (hi : Inbound s n) (h : Outbound s old cur) {i : Nat} {f : Frame}
    (hf : s.toHelper[i]? = some f) (hfirst : ∀ g ∈ s.toHelper, f.burst ≤ g.burst) :
    Inbound (s.afterDeliver i f) n ∧ (s.afterDeliver i f).toFw = s.toFw ∧
        (s.afterDeliver i f).acksOut = s.acksOut ∨
      Inbound (s.afterDeliver i f) (n + 1) ∧
        (s.afterDeliver i f).toFw = s.toFw ++ [(n, s.helper.consoleSendAck)] ∧
        (s.afterDeliver i f).acksOut = s.acksOut ++ [n] := by
  have hb := hi.first h.log (List.mem_of_getElem? hf) hfirst
  by_cases hlast : hasEot (ofBurst s.sent n) = true ∧ ∀ g ∈ s.toHelper.eraseIdx i, g.burst ≠ n
  · exact .inr (hi.deliver_last h hf hb hlast.1 hlast.2)
  · refine .inl (hi.deliver_more h hf hb fun he => ?_)
    by_contra hno
    exact hlast ⟨he, fun g hg hgb => hno ⟨g, hg, hgb⟩⟩

/-! ## with nothing of an ended burst in flight -/

/-- the burst being sent or waited for is done, or it is the one in the chunk array -/
theorem Inbound.done (hi : Inbound s n) (h : Log s old cur) (hn : eots old ≤ n) :
    Done s cur ∧ n = eots old + 1 ∨ ¬ Done s cur ∧ n = eots old := by
  have hsum : eots s.sent = eots old + eots cur := by rw [h.sent, eots_append]
  have hended := hi.ended
  by_cases hne : n = eots old
  · refine .inr ⟨fun hd => ?_, hne⟩
    have he : hasEot (ofBurst s.sent n) = true := by
      rw [hne, h.ofBurst_cur]
      exact hd.1
    obtain ⟨f, hf, _⟩ := hi.missing he
    rw [hd.2] at hf
    cases hf
  · have he : hasEot cur = true := by
      by_contra he
      rw [eots_of_open (Bool.eq_false_iff.mpr he)] at hsum
      omega
    rw [h.num.eots he] at hsum
    refine .inl ⟨⟨he, ?_⟩, by omega⟩
    refine List.eq_nil_iff_forall_not_mem.mpr fun f hf => ?_
    obtain ⟨hs, hle⟩ := hi.flight f hf
    have := h.burst_le hs
    omega

theorem Data.flight (h : Data s old cur) : ∀ f ∈ s.toHelper, f ∈ cur := by
  obtain ⟨n, hn, hi⟩ := h.rx
  intro f hf
  obtain ⟨hs, hle⟩ := hi.flight f hf
  have hb : f.burst = eots old := Nat.le_antisymm (h.log.burst_le hs) (Nat.le_trans hn hle)
  rw [← h.log.ofBurst_cur]
  exact mem_ofBurst.mpr ⟨hs, hb⟩

theorem Data.partly (h : Data s old cur) (hd : ¬ Done s cur) :
    s.helper.chunk.toList = slots cur (fun f => decide (f ∉ s.toHelper)) ∧
      s.helper.stdout = old := by
  obtain ⟨n, hn, hi⟩ := h.rx
  obtain ⟨hd', _⟩ | ⟨_, rfl⟩ := hi.done h.log hn
  · exact absurd hd' hd
  · rw [hi.chunk, hi.stdout, h.log.ofBurst_cur, h.log.before_cur]
    exact ⟨rfl, rfl⟩

theorem Data.written (h : Data s old cur) (hd : Done s cur) : s.helper.stdout = old ++ cur := by
  obtain ⟨n, hn, hi⟩ := h.rx
  obtain ⟨_, rfl⟩ | ⟨hd', _⟩ := hi.done h.log hn
  · rw [hi.stdout, h.log.before_all]
  · exact absurd hd hd'

/-- an ACK wait ends with nothing in flight -/
theorem Data.leave (h : Data s old cur) (hpc : s.fw.task.pc = .wait) (h0 : s.toHelper = []) :
    Data { s with fw := s.fw.endWait } (old ++ cur) [] := by
  obtain ⟨n, hn, hi⟩ := h.rx
  have he := h.wait_iff.mp hpc
  obtain ⟨_, rfl⟩ | ⟨hd, _⟩ := hi.done h.log hn
  · exact ⟨h.toOutbound.leave hpc, _, Nat.le_of_eq (h.log.leave_bursts he).1, { hi with }⟩
  · exact absurd ⟨he, h0⟩ hd

theorem Data.deliver (h : Data s old cur) {i : Nat} {f : Frame} (hf : s.toHelper[i]? = some f) :
    Data (s.afterDeliver i f) old cur ∧
      (¬ Done (s.afterDeliver i f) cur ∧ (s.afterDeliver i f).toFw = s.toFw ∧
          (s.afterDeliver i f).acksOut = s.acksOut ∨
        Done (s.afterDeliver i f) cur ∧
          (s.afterDeliver i f).toFw = s.toFw ++ [(eots old, s.helper.consoleSendAck)] ∧
          (s.afterDeliver i f).acksOut = s.acksOut ++ [eots old]) := by
  obtain ⟨n, hn, hi⟩ := h.rx
  have hin : f ∈ s.toHelper := List.mem_of_getElem? hf
  obtain ⟨hd, _⟩ | ⟨_, rfl⟩ := hi.done h.log hn
  · rw [hd.2] at hin
    cases hin
  have hcur := fun g hg => h.log.curBursts g (h.flight g hg)
  have hfirst : ∀ g ∈ s.toHelper, f.burst ≤ g.burst := fun g hg =>
    Nat.le_of_eq ((hcur f hin).trans (hcur g hg).symm)
  have hs := (h.toOutbound.deliver (hi.flight f hin).1 i).1
  rcases hi.deliver h.toOutbound hf hfirst with ⟨hi', hout⟩ | ⟨hi', hout⟩
  · refine ⟨⟨hs, _, Nat.le_refl _, hi'⟩, .inl ⟨?_, hout⟩⟩
    obtain ⟨_, he⟩ | ⟨hd, _⟩ := hi'.done hs.log (Nat.le_refl _)
    · exact absurd he (Nat.ne_of_lt (Nat.lt_succ_self _))
    · exact hd
  · refine ⟨⟨hs, _, Nat.le_succ _, hi'⟩, .inr ⟨?_, hout⟩⟩
    obtain ⟨hd, _⟩ | ⟨_, he⟩ := hi'.done hs.log (Nat.le_succ _)
    · exact hd
    · exact absurd he (Nat.succ_ne_self _)

/-! ## a delivery to the firmware -/

/-- every message of the helper in flight is a console ACK -/
def Proper (s : Session) : Prop := ∀ p ∈ s.toFw, p.2 = s.helper.consoleSendAck

/-- the state after the `i`-th message of the helper, an ACK for the burst `b`, was received -/
def Session.afterAck (s : Session) (i b : Nat) : Session :=
  { s with
    fw := s.fw.notifyGive, toFw := s.toFw.eraseIdx i, acksIn := s.acksIn ++ [b] }

theorem rxTask_ack (h : Link s) :
    canservicesRxTask s.fw s.helper.consoleSendAck = (s.fw.notifyGive, [.notifyGive]) := by
  have hobj : s.helper.consoleSendAck.object = s.fw.console.object := by
    rw [h.console]
    rfl
  have hcon : s.fw.console.connected = true := by rw [h.console]
  have hty : s.helper.consoleSendAck.type = .ack := rfl
  unfold canservicesRxTask
  rw [hty]
  simp only
  rw [if_pos ⟨hcon, hobj⟩]

theorem receive_ack (h : Link s) (hp : Proper s) {i : Nat} {t : Session}
    (hs : s.receive i = some t) : ∃ b, s.toFw[i]? = some (b, s.helper.consoleSendAck) ∧
      t = s.afterAck i b := by
  obtain ⟨⟨b, m⟩, hbm, rfl⟩ := Option.map_eq_some_iff.mp hs
  have hm : m = s.helper.consoleSendAck := hp (b, m) (List.mem_of_getElem? hbm)
  subst hm
  refine ⟨b, hbm, ?_⟩
  have hty : s.helper.consoleSendAck.type = .ack := rfl
  simp only [rxTask_ack h, if_pos hty]
  simp [Session.afterAck, sends, Eff.msg?]

theorem Outbound.ack (h : Outbound s old cur) (i b : Nat) : Outbound (s.afterAck i b) old cur :=
  ⟨⟨h.link.console, h.link.peer, h.link.alive, h.link.awake⟩, h.task, { h.log with }⟩

theorem Inbound.ack (h : Inbound s n) (i b : Nat) : Inbound (s.afterAck i b) n := { h with }

theorem Data.ack (h : Data s old cur) (i b : Nat) : Data (s.afterAck i b) old cur := by
  obtain ⟨n, hn, hi⟩ := h.rx
  exact ⟨h.toOutbound.ack i b, n, hn, hi.ack i b⟩

theorem Proper.ack (h : Proper s) (i b : Nat) : Proper (s.afterAck i b) := fun p hp =>
  h p (List.mem_of_mem_eraseIdx hp)

/-! ## one step of the machine -/

/-- What one step can do to a session whose helper runs and whose receive timer does not expire:
nothing to the messages, a send, the end of an ACK wait, a delivery to either side. -/
inductive Moves (s : Session) (old cur : List Frame) : SessionAct → Session → Prop
  | quiet {a : SessionAct} (fw : Fw) (taken : List UInt8) (hn : fw.task.notify = s.fw.task.notify)
      (ha : ∀ i, a ≠ .toFw i) (hd : Outbound { s with fw := fw, taken := taken } old cur) :
      Moves s old cur a { s with fw := fw, taken := taken }
  | send (m : CanMsg) (hpc : s.fw.task.pc = .built m) : Moves s old cur .task (s.afterSend m)
  | leave {a : SessionAct} (hl : LeavesWait s a) (hn : a = .task ∧ 0 < s.fw.task.notify ∨
      a = .ackTimeout ∧ s.fw.task.notify = 0) : Moves s old cur a { s with fw := s.fw.endWait }
  | deliver (i : Nat) (f : Frame) (hi : s.toHelper[i]? = some f) :
      Moves s old cur (.toHelper i) (s.afterDeliver i f)
  | ack (i b : Nat) (hi : s.toFw[i]? = some (b, s.helper.consoleSendAck)) :
      Moves s old cur (.toFw i) (s.afterAck i b)

theorem Outbound.moves_quiet (h : Outbound s old cur) {ev : TaskEv} {fw : Fw} {e : TaskEff} {a : SessionAct}
    (hne : ∀ i, a ≠ .toFw i) (hev : ev ≠ .sendFail) (hstep : consoleTask s.fw ev = some (fw, e))
    (hw : s.fw.task.pc ≠ .wait) (hm : ∀ m, s.fw.task.pc ≠ .built m) :
    Moves s old cur a (s.afterTask fw e) := by
  obtain ⟨_, hst⟩ := consoleTask_step hstep
  obtain ⟨hc, ha, hs⟩ := consoleTask_console hstep
  have he : hasEot cur = false := by
    have ht := h.task
    unfold TaskOk at ht
    cases hpc : s.fw.task.pc with
    | wait => exact absurd hpc hw
    | _ => rw [hpc] at ht; exact ht.1
  have htask := hst.inBurst h.task hw hm (h.log.short he)
  have hb := h.log.bytes
  have hn := hst.notify_eq hw
  cases (hst.hand h.task.handOk).2 with
  | took bs h0 h1 =>
    refine .quiet fw (s.taken ++ bs) hn hne (h.of_fw hc ha hs htask ?_)
    rw [h0, List.append_nil] at hb
    rw [hb, h1]
  | sent m _ _ =>
    cases hst with
    | send _ hpc => exact absurd hpc (hm m)
  | keep _ hhand =>
    exact .quiet fw s.taken hn hne (h.of_fw hc ha hs htask (by rw [hhand]; exact hb))
  | drop he' _ _ => exact absurd he' hev

theorem Outbound.moves_task (h : Outbound s old cur) {ev : TaskEv} {a : SessionAct} {t : Session}
    (ha : ev = .run ∧ a = .task ∨ ev = .timeout ∧ a = .ackTimeout) (hs : s.taskStep ev = some t) :
    Moves s old cur a t := by
  obtain ⟨⟨fw, e⟩, hstep, rfl⟩ := Option.map_eq_some_iff.mp hs
  have hne : ∀ i, a ≠ .toFw i := by
    rintro i rfl
    rcases ha with ⟨_, h⟩ | ⟨_, h⟩ <;> cases h
  have hinv := (consoleTask_step hstep).2
  have hev : ev ≠ .sendFail := by
    rcases ha with ⟨rfl, _⟩ | ⟨rfl, _⟩ <;> simp
  have hquiet := h.moves_quiet hne hev hstep
  cases hinv with
  | recv hpc => exact hquiet (by simp [hpc]) (by simp [hpc])
  | addr d hpc => exact hquiet (by simp [hpc]) (by simp [hpc])
  | object d a hpc => exact hquiet (by simp [hpc]) (by simp [hpc])
  | build d a o hpc => exact hquiet (by simp [hpc]) (by simp [hpc])
  | send m hpc =>
    obtain ⟨_, rfl⟩ | ⟨h, _⟩ := ha
    · exact .send m hpc
    · cases h
  | fail m hpc => rcases ha with ⟨h, _⟩ | ⟨h, _⟩ <;> cases h
  | notified hpc hn =>
    obtain ⟨_, rfl⟩ | ⟨h, _⟩ := ha
    · exact .leave ⟨hpc, .inl rfl⟩ (.inl ⟨rfl, hn⟩)
    · cases h
  | expired hpc hn =>
    obtain ⟨h, _⟩ | ⟨_, rfl⟩ := ha
    · cases h
    · exact .leave ⟨hpc, .inr rfl⟩ (.inr ⟨rfl, hn⟩)

theorem deliver_some {i : Nat} {t : Session} (h : s.deliver i = some t) :
    s.helper.alive = true ∧ ∃ f, s.toHelper[i]? = some f ∧ t = s.afterDeliver i f := by
  unfold Session.deliver at h
  by_cases hal : s.helper.alive = true
  · rw [if_pos hal] at h
    obtain ⟨f, hf, rfl⟩ := Option.map_eq_some_iff.mp h
    exact ⟨hal, f, hf, rfl⟩
  · rw [if_neg hal] at h
    cases h

/-- **A step of a running session is one of the moves.** -/
theorem Outbound.moves (h : Outbound s old cur) (hp : Proper s) {a : SessionAct} {t : Session}
    (hr : a ≠ .recvTimeout) (hs : s.step a = some t) : Moves s old cur a t := by
  cases a with
  | uart c =>
    cases hs
    refine .quiet _ s.taken rfl (fun i => by simp) ?_
    exact h.of_fw rfl rfl h.link.awake h.task h.log.bytes
  | task => exact h.moves_task (.inl ⟨rfl, rfl⟩) hs
  | ackTimeout => exact h.moves_task (.inr ⟨rfl, rfl⟩) hs
  | toHelper i =>
    obtain ⟨_, f, hf, rfl⟩ := deliver_some hs
    exact .deliver i f hf
  | toFw i =>
    obtain ⟨b, hb, rfl⟩ := receive_ack h.link hp hs
    exact .ack i b hb
  | recvTimeout => exact absurd rfl hr

theorem Inbound.proper (hi : Inbound s n) (h : Outbound s old cur) (hp : Proper s) {i : Nat}
    {f : Frame} (hf : s.toHelper[i]? = some f) (hfirst : ∀ g ∈ s.toHelper, f.burst ≤ g.burst) :
    Proper (s.afterDeliver i f) := by
  intro p hpm
  rw [(h.deliver (hi.flight f (List.mem_of_getElem? hf)).1 i).2]
  rcases hi.deliver h hf hfirst with ⟨_, ht, _⟩ | ⟨_, ht, _⟩ <;> rw [ht] at hpm
  · exact hp p hpm
  · rcases List.mem_append.mp hpm with hpm | hpm
    · exact hp p hpm
    · rw [List.mem_singleton.mp hpm]

theorem Proper.deliver (hp : Proper s) (h : Data s old cur) {i : Nat} {f : Frame}
    (hf : s.toHelper[i]? = some f) : Proper (s.afterDeliver i f) := by
  obtain ⟨n, hn, hi⟩ := h.rx
  have hcur := fun g hg => h.log.curBursts g (h.flight g hg)
  refine hi.proper h.toOutbound hp hf fun g hg => Nat.le_of_eq ?_
  exact (hcur f (List.mem_of_getElem? hf)).trans (hcur g hg).symm

end

end Bramble
