import Bramble.Firmware.ConsoleTask
import Bramble.Firmware.RxTask

/-!
# The numbering of a new console connection

The services and the console task on one node, under any sequence of messages.  The sequence
number is a local of the task, so a connection that is accepted in the middle of a burst inherits
it.

* `sender`                 the machine, with the DAT messages sent and the connections accepted;
* `Renumbered`             the guard: a connection is accepted between bursts, and its first burst
                           meets no full transmit queue;
* `conn_numbering`         then what its peer is sent first is numbered 0, 1, 2, ..;
* `conn_numbering_fails`   without the guard the first number can be 1.
-/

namespace Bramble

/-! ## a list up to an element -/

section
variable {α : Type*} (p : α → Bool)

/-- the list up to and including the first element that satisfies `p` -/
def upTo : List α → List α
  | [] => []
  | a :: l => if p a then [a] else a :: upTo l

theorem upTo_open {l : List α} (h : l.any p = false) : upTo p l = l := by
  induction l with
  | nil => rfl
  | cons a l ih =>
    rw [List.any_cons, Bool.or_eq_false_iff] at h
    rw [upTo, if_neg (by simp [h.1]), ih h.2]

theorem upTo_closed {l : List α} (h : l.any p = true) (l' : List α) :
    upTo p (l ++ l') = upTo p l := by
  induction l with
  | nil => cases h
  | cons a l ih =>
    rw [List.cons_append, upTo, upTo]
    by_cases ha : p a = true
    · rw [if_pos ha, if_pos ha]
    · rw [List.any_cons, Bool.or_eq_true] at h
      rw [if_neg ha, if_neg ha, ih (h.resolve_left ha)]

theorem upTo_last {l : List α} (h : l.any p = false) (a : α) : upTo p (l ++ [a]) = l ++ [a] := by
  induction l with
  | nil =>
    show (if p a then [a] else [a]) = [a]
    rw [ite_self]
  | cons b l ih =>
    rw [List.any_cons, Bool.or_eq_false_iff] at h
    rw [List.cons_append, upTo, if_neg (by simp [h.1]), ih h.2]

end

/-! ## the machine -/

structure Sender where
  fw : Fw
  /-- DAT messages accepted by `canbus_send` -/
  dats : List CanMsg
  /-- accepted connections: the peer, and how many DAT messages had been sent before -/
  conns : List (Addr × Nat)

namespace Sender

def afterTask (s : Sender) (fw : Fw) : TaskEff → Sender
  | .sent m => { s with fw := fw, dats := s.dats ++ [m] }
  | _ => { s with fw := fw }

def receive (s : Sender) (m : CanMsg) : Sender :=
  { s with
    fw := (canservicesRxTask s.fw m).1
    conns := if m.isConn then s.conns ++ [(m.src, s.dats.length)] else s.conns }

def step (s : Sender) : NodeAct → Option Sender
  | .uart c => some { s with fw := { s.fw with serial := s.fw.serial.usart1IsrRx c } }
  | .usartTx => some { s with fw := { s.fw with serial := s.fw.serial.usart1IsrTx.1 } }
  | .can m => some (s.receive m)
  | .task ev => (consoleTask s.fw ev).map fun r => s.afterTask r.1 r.2

/-- after `canservices_init` -/
structure Start (s : Sender) : Prop where
  task : s.fw.task = ⟨.recv, 0, 0, true⟩
  dats : s.dats = []
  conns : s.conns = []

/-- what the connection `c` has been sent -/
def sentTo (s : Sender) (c : Addr × Nat) : List CanMsg :=
  (s.dats.drop c.2).filter fun m => m.dst = c.1

def ended (l : List CanMsg) : Bool := l.any CanMsg.eot

/-- some connection of `a` has not been sent an `eot` -/
def opened (s : Sender) (a : Addr) : Bool :=
  s.conns.any fun c => c.1 == a && !ended (s.sentTo c)

end Sender

def sender : Machine Sender NodeAct := ⟨Sender.step⟩

/-! ## the guard -/

/-- The console task when it meets a connection of `a`: before the first message of a burst, or
with its last message in hand, or at the wait. -/
def Fw.between (fw : Fw) (a : Addr) : Prop :=
  match fw.task.pc with
  | .recv | .got _ => fw.task.seq = 0
  | .addressed _ b | .named _ b _ => b = a → fw.task.seq = 0
  | .built m => (m.dst = a → fw.task.seq = 1) ∧ (m.dst ≠ a → m.eot = true)
  | .wait => True

structure Renumbered (s : Sender) (act : NodeAct) : Prop where
  conn : ∀ m, act = .can m → m.isConn → s.fw.between m.src
  build : ∀ d a o, act = .task .run → s.fw.task.pc = .named d a o → a ≠ s.fw.console.dstaddr →
    (s.fw.datMsg d a o).eot = true
  fail : ∀ m, act = .task .sendFail → s.fw.task.pc = .built m →
    s.opened m.dst = false ∧ s.opened s.fw.console.dstaddr = false

/-! ## the invariant -/

/-- the peer of the next DAT message, `dst` being the peer of the connection -/
def TaskPc.target (dst : Addr) : TaskPc → Option Addr
  | .recv | .got _ => some dst
  | .addressed _ a | .named _ a _ => some a
  | .built m => some m.dst
  | .wait => none

/-- the number of the next DAT message -/
def TaskPc.number (seq : Nat) : TaskPc → Nat
  | .built _ => seq - 1
  | _ => seq

def Fw.target (fw : Fw) : Option Addr := fw.task.pc.target fw.console.dstaddr

def Fw.nextSeq (fw : Fw) : Nat := fw.task.pc.number fw.task.seq

/-- The message at `send_msg`: numbered by `seq`, and the last of its burst or for the peer of the
connection. -/
def BuiltOk (fw : Fw) : Prop :=
  ∀ m, fw.task.pc = .built m → 0 < fw.task.seq ∧ m.seq.val = (fw.task.seq - 1) % 16 ∧
    (m.eot = false → fw.task.seq ≠ 16 ∧ m.dst = fw.console.dstaddr)

/-- a connection to `a` that has been sent `l` -/
structure Counted (fw : Fw) (a : Addr) (l : List CanMsg) : Prop where
  numbered : NumberedFrom0 (upTo CanMsg.eot l)
  here : Sender.ended l = false → fw.target = some a → fw.nextSeq = l.length ∧ l.length ≤ 15
  away : Sender.ended l = false → fw.target ≠ some a → l = []

structure Tracked (s : Sender) : Prop where
  built : BuiltOk s.fw
  bound : ∀ c ∈ s.conns, c.2 ≤ s.dats.length
  counted : ∀ c ∈ s.conns, Counted s.fw c.1 (s.sentTo c)

section
variable {fw fw' : Fw} {a : Addr} {l : List CanMsg} {s t : Sender}

theorem Counted.nil (h : fw.target = some a → fw.nextSeq = 0) : Counted fw a [] :=
  ⟨rfl, fun _ ht => ⟨h ht, Nat.zero_le _⟩, fun _ _ => rfl⟩

theorem Fw.target_at {pc : TaskPc} (hpc : fw.task.pc = pc) :
    fw.target = pc.target fw.console.dstaddr := by
  rw [← hpc]
  rfl

theorem Fw.nextSeq_at {pc : TaskPc} (hpc : fw.task.pc = pc) :
    fw.nextSeq = pc.number fw.task.seq := by
  rw [← hpc]
  rfl

/-- a step that neither sends nor readdresses -/
theorem Counted.keep (h : Counted fw a l) {pc : TaskPc} (hpc : fw.task.pc = pc)
    (ht : fw'.target = pc.target fw.console.dstaddr)
    (hn : fw'.nextSeq = pc.number fw.task.seq) : Counted fw' a l := by
  refine ⟨h.numbered, ?_, ?_⟩
  · rw [ht, hn, ← Fw.target_at hpc, ← Fw.nextSeq_at hpc]
    exact h.here
  · rw [ht, ← Fw.target_at hpc]
    exact h.away

/-- the message of a connection that has been sent `l` continues the numbering -/
theorem Counted.sent_here (h : Counted fw a l) {m : CanMsg} (hb : BuiltOk fw)
    (hpc : fw.task.pc = .built m) (hm : m.dst = a) :
    Counted (fw.goto (if m.eot then .wait else .recv)) a (l ++ [m]) := by
  obtain ⟨hpos, hseq, hopen⟩ := hb m hpc
  by_cases he : Sender.ended l = true
  · have he' : Sender.ended (l ++ [m]) = true := by
      rw [Sender.ended, List.any_append, Bool.or_eq_true]
      exact .inl he
    refine ⟨?_, fun h' => ?_, fun h' => ?_⟩
    · rw [upTo_closed _ he]
      exact h.numbered
    · rw [he'] at h'
      cases h'
    · rw [he'] at h'
      cases h'
  · rw [Bool.not_eq_true] at he
    have htarget : fw.target = some a := by
      rw [Fw.target_at hpc, ← hm]
      rfl
    obtain ⟨hnext, hle⟩ := h.here he htarget
    have hnext' : fw.task.seq - 1 = l.length := by
      rw [← hnext, Fw.nextSeq_at hpc]
      rfl
    have hmseq : m.seq.val = l.length := by
      rw [hseq, hnext', Nat.mod_eq_of_lt (by omega)]
    have hnum : NumberedFrom0 l := by
      have := h.numbered
      rwa [upTo_open _ he] at this
    refine ⟨?_, fun h' htg => ?_, fun h' htg => ?_⟩
    · rw [upTo_last _ he]
      exact hnum.snoc hmseq
    · rw [Sender.ended, List.any_append, Bool.or_eq_false_iff] at h'
      have hme : m.eot = false := by simpa using h'.2
      have h16 := (hopen hme).1
      have hseq' : (fw.goto (if m.eot then .wait else .recv)).nextSeq = fw.task.seq := by
        rw [hme]
        rfl
      rw [hseq', List.length_append, List.length_singleton]
      omega
    · rw [Sender.ended, List.any_append, Bool.or_eq_false_iff] at h'
      have hme : m.eot = false := by simpa using h'.2
      refine absurd ?_ htg
      rw [hme]
      show some fw.console.dstaddr = some a
      rw [← (hopen hme).2, hm]

theorem Counted.sent_away (h : Counted fw a l) {m : CanMsg} (hb : BuiltOk fw)
    (hpc : fw.task.pc = .built m) (hm : m.dst ≠ a) :
    Counted (fw.goto (if m.eot then .wait else .recv)) a l := by
  obtain ⟨hpos, hseq, hopen⟩ := hb m hpc
  have haway : Sender.ended l = false → l = [] := by
    intro he
    refine h.away he ?_
    rw [Fw.target_at hpc]
    intro h'
    exact hm (Option.some.inj h')
  refine ⟨h.numbered, fun he ht => ?_, fun he _ => haway he⟩
  exfalso
  cases hme : m.eot with
  | true =>
    rw [hme] at ht
    cases ht
  | false =>
    rw [hme] at ht
    have ht' : some fw.console.dstaddr = some a := ht
    rw [← (hopen hme).2] at ht'
    exact hm (Option.some.inj ht')

theorem Counted.endWait (h : Counted fw a l) (hpc : fw.task.pc = .wait) :
    Counted fw.endWait a l := by
  have haway : Sender.ended l = false → l = [] := by
    intro he
    refine h.away he ?_
    rw [Fw.target_at hpc]
    intro h'
    cases h'
  refine ⟨h.numbered, fun he ht => ?_, fun he _ => haway he⟩
  rw [haway he]
  exact ⟨rfl, Nat.zero_le _⟩

/-- a message that is dropped belongs to no connection that is still counting -/
theorem Counted.fail (h : Counted fw a l) {m : CanMsg} (hpc : fw.task.pc = .built m)
    (hend : Sender.ended l = false → a ≠ m.dst ∧ a ≠ fw.console.dstaddr) :
    Counted (fw.goto .recv) a l := by
  refine ⟨h.numbered, fun he ht => ?_, fun he _ => ?_⟩
  · exact absurd (Option.some.inj ht).symm (hend he).2
  · refine h.away he ?_
    rw [Fw.target_at hpc]
    intro h'
    exact (hend he).1 (Option.some.inj h').symm

/-- a new connection, of the same peer or of another one -/
theorem Counted.conn (h : Counted fw a l) {b : Addr} {o : UInt8} (hg : fw.between b) :
    Counted (fw.connected b o) a l := by
  unfold Fw.between at hg
  -- only before the address is read does the peer of the next message change
  have hfresh : fw.task.seq = 0 → fw.nextSeq = fw.task.seq →
      (fw.connected b o).nextSeq = fw.task.seq → Counted (fw.connected b o) a l := by
    intro h0 hn hn'
    have hnil : Sender.ended l = false → l = [] := by
      intro he
      by_cases ha : fw.target = some a
      · have := (h.here he ha).1
        exact List.length_eq_zero_iff.mp (by omega)
      · exact h.away he ha
    refine ⟨h.numbered, fun he _ => ?_, fun he _ => hnil he⟩
    rw [hnil he, hn', h0]
    exact ⟨rfl, Nat.zero_le _⟩
  have hpc' : (fw.connected b o).task.pc = fw.task.pc := rfl
  cases hpc : fw.task.pc with
  | recv =>
    rw [hpc] at hg
    exact hfresh hg (Fw.nextSeq_at hpc) (Fw.nextSeq_at (hpc'.trans hpc))
  | got d =>
    rw [hpc] at hg
    exact hfresh hg (Fw.nextSeq_at hpc) (Fw.nextSeq_at (hpc'.trans hpc))
  | addressed d c =>
    exact h.keep hpc (Fw.target_at (hpc'.trans hpc)) (Fw.nextSeq_at (hpc'.trans hpc))
  | named d c o' =>
    exact h.keep hpc (Fw.target_at (hpc'.trans hpc)) (Fw.nextSeq_at (hpc'.trans hpc))
  | built m => exact h.keep hpc (Fw.target_at (hpc'.trans hpc)) (Fw.nextSeq_at (hpc'.trans hpc))
  | wait => exact h.keep hpc (Fw.target_at (hpc'.trans hpc)) (Fw.nextSeq_at (hpc'.trans hpc))

/-! ## steps -/

theorem BuiltOk.other (h : ∀ m, fw.task.pc ≠ .built m) : BuiltOk fw := fun m hm => absurd hm (h m)

theorem Counted.task (h : Counted fw a l) {ev : TaskEv} {e : TaskEff} (hs : TaskStep fw ev fw' e)
    (hm : ∀ m, fw.task.pc ≠ .built m) : Counted fw' a l := by
  cases hs with
  | recv hpc =>
    refine h.keep hpc ?_ ?_
    · show TaskPc.target _ (if fw.serial.rxq = [] then .recv else _) = _
      split <;> rfl
    · show TaskPc.number _ (if fw.serial.rxq = [] then .recv else _) = _
      split <;> rfl
  | addr d hpc => exact h.keep hpc rfl rfl
  | object d b hpc => exact h.keep hpc rfl rfl
  | build d b o hpc => exact h.keep hpc rfl rfl
  | send m hpc => exact absurd hpc (hm m)
  | fail m hpc => exact absurd hpc (hm m)
  | notified hpc _ => exact h.endWait hpc
  | expired hpc _ => exact h.endWait hpc

theorem BuiltOk.build {d : Payload} {o : UInt8} (hg : a ≠ fw.console.dstaddr →
    (fw.datMsg d a o).eot = true) :
    BuiltOk { fw with task := { fw.task with
      pc := .built (fw.datMsg d a o), seq := fw.task.seq + 1 } } := by
  intro m hm
  obtain rfl : fw.datMsg d a o = m := TaskPc.built.inj hm
  refine ⟨Nat.succ_pos _, rfl, fun he => ⟨?_, ?_⟩⟩
  · intro h16
    have h15 : fw.task.seq = 15 := Nat.succ.inj h16
    simp [Fw.datMsg, h15] at he
  · by_contra hne
    rw [hg hne] at he
    cases he

theorem sentTo_snoc {c : Addr × Nat} (hc : c.2 ≤ s.dats.length) (m : CanMsg) (fw : Fw) :
    (s.afterTask fw (.sent m)).sentTo c = s.sentTo c ++ if m.dst = c.1 then [m] else [] := by
  show ((s.dats ++ [m]).drop c.2).filter _ = _
  rw [List.drop_append_of_le_length hc, List.filter_append]
  congr 1
  by_cases hm : m.dst = c.1 <;> simp [hm]

theorem Tracked.send (h : Tracked s) {m : CanMsg} (hpc : s.fw.task.pc = .built m) :
    Tracked (s.afterTask (s.fw.goto (if m.eot then .wait else .recv)) (.sent m)) := by
  refine ⟨?_, ?_, ?_⟩
  · refine .other fun m' hm' => ?_
    have hm'' : (if m.eot then TaskPc.wait else TaskPc.recv) = .built m' := hm'
    split at hm'' <;> cases hm''
  · intro c hc
    show c.2 ≤ (s.dats ++ [m]).length
    have := h.bound c hc
    rw [List.length_append]
    omega
  · intro c hc
    rw [sentTo_snoc (h.bound c hc)]
    by_cases hm : m.dst = c.1
    · rw [if_pos hm]
      exact (h.counted c hc).sent_here h.built hpc hm
    · rw [if_neg hm, List.append_nil]
      exact (h.counted c hc).sent_away h.built hpc hm

theorem opened_false {c : Addr × Nat} (hc : c ∈ s.conns) (h : s.opened c.1 = false) :
    Sender.ended (s.sentTo c) = true := by
  have := List.any_eq_false.mp h c hc
  simpa using this

theorem Tracked.task (h : Tracked s) {ev : TaskEv} (hg : Renumbered s (.task ev)) {e : TaskEff}
    (hs : TaskStep s.fw ev fw e) : Tracked (s.afterTask fw e) := by
  have hquiet : BuiltOk fw → (∀ m, e ≠ .sent m) → (∀ m, s.fw.task.pc ≠ .built m) →
      Tracked (s.afterTask fw e) := by
    intro hb he hm
    have hc : ∀ c ∈ s.conns, Counted fw c.1 (s.sentTo c) := fun c hc => (h.counted c hc).task hs hm
    cases e with
    | sent m => exact absurd rfl (he m)
    | quiet => exact ⟨hb, h.bound, hc⟩
    | took bs => exact ⟨hb, h.bound, hc⟩
  cases hs with
  | recv hpc =>
    refine hquiet (.other ?_) (by simp) (by simp [hpc])
    intro m hm
    have hm' : (if s.fw.serial.rxq = [] then TaskPc.recv else .got _) = .built m := hm
    split at hm' <;> cases hm'
  | addr d hpc => exact hquiet (.other (by simp [Fw.goto])) (by simp) (by simp [hpc])
  | object d b hpc => exact hquiet (.other (by simp [Fw.goto])) (by simp) (by simp [hpc])
  | build d b o hpc => exact hquiet (.build (hg.build d b o rfl hpc)) (by simp) (by simp [hpc])
  | send m hpc => exact h.send hpc
  | fail m hpc =>
    obtain ⟨h1, h2⟩ := hg.fail m rfl hpc
    have hb : BuiltOk (s.fw.goto .recv) := .other fun m' hm' => by cases hm'
    refine ⟨hb, h.bound, fun c hc => (h.counted c hc).fail hpc fun he => ?_⟩
    have hc' : c ∈ s.conns := hc
    have hne : s.opened c.1 ≠ false := fun ho => by
      rw [opened_false hc' ho] at he
      cases he
    exact ⟨fun heq => hne (heq ▸ h1), fun heq => hne (heq ▸ h2)⟩
  | notified hpc _ => exact hquiet (.other (by simp [Fw.endWait])) (by simp) (by simp [hpc])
  | expired hpc _ => exact hquiet (.other (by simp [Fw.endWait])) (by simp) (by simp [hpc])

theorem Counted.new {b : Addr} {o : UInt8} (hg : s.fw.between b) :
    Counted (s.fw.connected b o) b [] := by
  refine .nil fun ht => ?_
  unfold Fw.between at hg
  have hpc' : (s.fw.connected b o).task.pc = s.fw.task.pc := rfl
  cases hpc : s.fw.task.pc <;>
    rw [hpc] at hg <;> rw [Fw.target_at (hpc'.trans hpc)] at ht <;>
    rw [Fw.nextSeq_at (hpc'.trans hpc)]
  case recv => exact hg
  case got => exact hg
  case addressed d c => exact hg (Option.some.inj ht)
  case named d c o' => exact hg (Option.some.inj ht)
  case built m =>
    have := hg.1 (Option.some.inj ht)
    show s.fw.task.seq - 1 = 0
    omega
  case wait => cases ht

theorem Tracked.connect (h : Tracked s) {m : CanMsg} (hc : m.isConn) {o : UInt8}
    (hbet : s.fw.between m.src) (hfw : (canservicesRxTask s.fw m).1 = s.fw.connected m.src o) :
    Tracked (s.receive m) := by
  have hrcv : s.receive m = { s with
      fw := s.fw.connected m.src o, conns := s.conns ++ [(m.src, s.dats.length)] } := by
    unfold Sender.receive
    rw [hfw, if_pos hc]
  rw [hrcv]
  refine ⟨?_, ?_, ?_⟩
  · intro m' hm'
    obtain ⟨h1, h2, h3⟩ := h.built m' hm'
    refine ⟨h1, h2, fun hme => ⟨(h3 hme).1, ?_⟩⟩
    unfold Fw.between at hbet
    rw [show s.fw.task.pc = .built m' from hm'] at hbet
    by_contra hne
    rw [hbet.2 hne] at hme
    cases hme
  · intro c hc'
    rcases List.mem_append.mp hc' with hc' | hc'
    · exact h.bound c hc'
    · rw [List.mem_singleton.mp hc']
  · intro c hc'
    rcases List.mem_append.mp hc' with hc' | hc'
    · exact (h.counted c hc').conn hbet
    · rw [List.mem_singleton.mp hc']
      show Counted _ m.src ((s.dats.drop s.dats.length).filter _)
      rw [List.drop_length]
      exact .new hbet

theorem Tracked.receive (h : Tracked s) {m : CanMsg} (hg : Renumbered s (.can m)) :
    Tracked (s.receive m) := by
  have hrx := canservicesRxTask_step s.fw m
  by_cases hc : m.isConn
  · obtain ⟨o, ho⟩ := hrx.conn_eq hc
    exact h.connect hc (hg.conn m rfl hc) ho
  · obtain ⟨hpc, hseq, _⟩ := hrx.pc
    have hdst := hrx.dstaddr hc
    unfold Sender.receive
    rw [if_neg hc]
    refine ⟨?_, h.bound, fun c hc => (h.counted c hc).keep rfl ?_ ?_⟩
    · intro m' hm'
      have := h.built m' (hpc ▸ hm')
      rw [hseq, hdst]
      exact this
    · show (canservicesRxTask s.fw m).1.task.pc.target _ = _
      rw [hpc, hdst]
    · show (canservicesRxTask s.fw m).1.task.pc.number _ = _
      rw [hpc, hseq]

theorem tracked_step {act : NodeAct} (h : Tracked s) (hg : Renumbered s act)
    (hs : s.step act = some t) : Tracked t := by
  cases act with
  | uart c =>
    cases hs
    exact ⟨h.built, h.bound, fun c hc => (h.counted c hc).keep rfl rfl rfl⟩
  | usartTx =>
    cases hs
    exact ⟨h.built, h.bound, fun c hc => (h.counted c hc).keep rfl rfl rfl⟩
  | can m =>
    cases hs
    exact h.receive hg
  | task ev =>
    obtain ⟨⟨fw, e⟩, hstep, rfl⟩ := Option.map_eq_some_iff.mp hs
    exact h.task hg (consoleTask_step hstep).2

end

instance (fw : Fw) (a : Addr) : Decidable (fw.between a) := by
  unfold Fw.between
  split <;> infer_instance

def Sender.renumbered (s : Sender) : NodeAct → Bool
  | .can m => decide (m.isConn → s.fw.between m.src)
  | .task .run =>
    match s.fw.task.pc with
    | .named d a o => decide (a ≠ s.fw.console.dstaddr → (s.fw.datMsg d a o).eot = true)
    | _ => true
  | .task .sendFail =>
    match s.fw.task.pc with
    | .built m => !s.opened m.dst && !s.opened s.fw.console.dstaddr
    | _ => true
  | _ => true

theorem renumbered_iff (s : Sender) (act : NodeAct) :
    s.renumbered act = true ↔ Renumbered s act := by
  constructor
  · intro h
    refine ⟨?_, ?_, ?_⟩
    · rintro m rfl
      exact of_decide_eq_true h
    · rintro d a o rfl hpc
      simp only [Sender.renumbered, hpc, decide_eq_true_eq] at h
      exact h
    · rintro m rfl hpc
      simpa [Sender.renumbered, hpc] using h
  · rintro ⟨h1, h2, h3⟩
    unfold Sender.renumbered
    split
    · exact decide_eq_true (h1 _ rfl)
    · split
      · exact decide_eq_true (h2 _ _ _ rfl ‹_›)
      · rfl
    · split
      · simpa using h3 _ rfl ‹_›
      · rfl
    · rfl

instance (s : Sender) (act : NodeAct) : Decidable (Renumbered s act) :=
  decidable_of_iff _ (renumbered_iff s act)

/-- **Every connection accepted under the guard starts a fresh numbering.** -/
theorem conn_numbering {s t : Sender} (h0 : s.Start) (h : sender.Reach Renumbered s t) :
    ∀ c ∈ t.conns, NumberedFrom0 (upTo CanMsg.eot (t.sentTo c)) := by
  have hinv : Tracked t := by
    refine h.inv ⟨?_, ?_, ?_⟩ fun _ _ _ hi hg hs => tracked_step hi hg hs
    · refine .other fun m hm => ?_
      rw [h0.task] at hm
      cases hm
    · intro c hc
      rw [h0.conns] at hc
      cases hc
    · intro c hc
      rw [h0.conns] at hc
      cases hc
  exact fun c hc => (hinv.counted c hc).numbered

def Sender.boot (a : Addr) : Sender := ⟨Fw.init a, [], []⟩

/-- a request of the node `b` for the console of the node 16, with the object `object` -/
def consoleRequest (b : Addr) (object : UInt8) : CanMsg :=
  { CanMsg.zero with
    pri := 1, dst := 16, src := b, type := .wo, object := object, data := .single objConsolesend }

def consoleAck (b : Addr) : CanMsg :=
  { CanMsg.zero with pri := 1, dst := 16, src := b, type := .ack, object := objConsolesend }

/-- nine bytes to one peer, which disconnects in the wait; nine bytes to another one -/
def twoPeers : List NodeAct :=
  List.flatten [[.can (consoleRequest 32 objConsoleconn)], List.replicate 9 (.uart 65),
    List.replicate 10 (.task .run), [.can (consoleRequest 32 objConsoledisc),
      .can (consoleRequest 33 objConsoleconn), .can (consoleAck 33), .task .run],
    List.replicate 9 (.uart 66), List.replicate 10 (.task .run)]

/-- nine bytes, of which the ninth is sent to the next peer -/
def splitBurst : List NodeAct :=
  List.flatten [[.can (consoleRequest 32 objConsoleconn)], List.replicate 9 (.uart 65),
    List.replicate 5 (.task .run), [.can (consoleRequest 32 objConsoledisc),
      .can (consoleRequest 33 objConsoleconn)], List.replicate 5 (.task .run)]

theorem conn_numbering_two_peers : ∃ t, sender.run (Sender.boot 16) twoPeers = some t ∧
    t.conns = [(32, 0), (33, 2)] ∧
    ∀ c ∈ t.conns, NumberedFrom0 (upTo CanMsg.eot (t.sentTo c)) := by
  have hrun : (sender.run (Sender.boot 16) twoPeers).map Sender.conns = some [(32, 0), (33, 2)] := by
    decide
  obtain ⟨t, ht, hconns⟩ := Option.map_eq_some_iff.mp hrun
  have hguard : sender.Along Renumbered (Sender.boot 16) twoPeers := by decide
  exact ⟨t, ht, hconns, conn_numbering ⟨rfl, rfl, rfl⟩ (Machine.run_reach hguard ht)⟩

theorem conn_numbering_fails : ¬ ∀ s t : Sender, s.Start → sender.Reach Machine.Free s t →
    ∀ c ∈ t.conns, NumberedFrom0 (upTo CanMsg.eot (t.sentTo c)) := by
  intro hall
  have hrun : (sender.run (Sender.boot 16) splitBurst).map (fun t =>
      t.conns.all fun c => NumberedFrom0 (upTo CanMsg.eot (t.sentTo c)))
      = some false := by decide
  obtain ⟨t, ht, hlost⟩ := Option.map_eq_some_iff.mp hrun
  have hnum := hall _ t ⟨rfl, rfl, rfl⟩ (Machine.run_free ht)
  have hall' : (t.conns.all fun c =>
      NumberedFrom0 (upTo CanMsg.eot (t.sentTo c))) = true := by
    rw [List.all_eq_true]
    intro c hc
    exact decide_eq_true (hnum c hc)
  exact absurd (hlost.symm.trans hall') Bool.false_ne_true

end Bramble
