import Bramble.Firmware.Numbering

/-!
# Whose console connection it is

CONSOLECONN is accepted from anyone at any time and replaces the connection; CONSOLEDISC checks
the peer, the data of CONSOLERECV and the ACKs of the console are taken from anyone.

* `peered`                one node, with the peer of the latest connection not yet disconnected;
* `Peered.agrees`         the services know that peer;
* `point_to_point_iff`    a run is point to point iff no stranger sends console data or an ACK for
                          the console object while a connection is up;
* `point_to_point_fails`  a peer that was replaced can still type.
-/

namespace Bramble

/-- One node; `peer` is the source of the latest accepted CONSOLECONN, until the connection ends. -/
structure Peered where
  fw : Fw
  peer : Option Addr

namespace Peered

/-- the connection ends with this step of the rx task -/
def ends (fw fw' : Fw) : Bool := fw.console.connected && !fw'.console.connected

def receive (s : Peered) (m : CanMsg) : Peered :=
  let fw := (canservicesRxTask s.fw m).1
  { fw := fw, peer := if m.isConn then some m.src else if ends s.fw fw then none else s.peer }

def step (s : Peered) : NodeAct → Option Peered
  | .uart c => some { s with fw := { s.fw with serial := s.fw.serial.usart1IsrRx c } }
  | .usartTx => some { s with fw := { s.fw with serial := s.fw.serial.usart1IsrTx.1 } }
  | .can m => some (s.receive m)
  | .task ev => (consoleTask s.fw ev).map fun r => { s with fw := r.1 }

structure Start (s : Peered) : Prop where
  console : s.fw.console.connected = false
  peer : s.peer = none

end Peered

def peered : Machine Peered NodeAct := ⟨Peered.step⟩

/-- What a message does to the console comes from the peer: each byte handed to `serial_send`, each
notification of the console task, and the end of the connection, which is a CONSOLEDISC. -/
structure FromPeer (s : Peered) (m : CanMsg) : Prop where
  serial : ∀ bs, .serialSend bs ∈ (canservicesRxTask s.fw m).2 → ∀ b ∈ bs,
    m.type = .dat ∧ s.peer = some m.src
  notify : .notifyGive ∈ (canservicesRxTask s.fw m).2 → m.type = .ack ∧ s.peer = some m.src
  disc : Peered.ends s.fw (canservicesRxTask s.fw m).1 = true →
    m.object = objConsoledisc ∧ s.peer = some m.src

def PointToPoint (s : Peered) : NodeAct → Prop
  | .can m => FromPeer s m
  | _ => True

/-- While a connection is up, console data and ACKs for the console object come from its peer. -/
def NoStranger (s : Peered) : NodeAct → Prop
  | .can m => s.peer ≠ none →
      m.type = .dat ∧ m.object = objConsolerecv ∧ m.data.bytes ≠ [] ∨
        m.type = .ack ∧ m.object = s.fw.console.object →
      s.peer = some m.src
  | _ => True

instance (s : Peered) : ∀ a, Decidable (NoStranger s a)
  | .can _ => inferInstanceAs (Decidable (_ → _))
  | .uart _ | .usartTx | .task _ => inferInstanceAs (Decidable True)

section
variable {s t : Peered}

/-- The services hold the peer. -/
def Peered.Agrees (s : Peered) : Prop :=
  s.peer = if s.fw.console.connected then some s.fw.console.dstaddr else none

theorem Peered.agrees {a : NodeAct} (h : s.Agrees) (hs : s.step a = some t) : t.Agrees := by
  cases a with
  | uart c =>
    cases hs
    exact h
  | usartTx =>
    cases hs
    exact h
  | task ev =>
    obtain ⟨⟨fw, e⟩, hstep, rfl⟩ := Option.map_eq_some_iff.mp hs
    have hc : fw.console = s.fw.console := (consoleTask_console hstep).1
    show s.peer = if fw.console.connected then some fw.console.dstaddr else none
    rw [hc]
    exact h
  | can m =>
    cases hs
    have hrx := canservicesRxTask_step s.fw m
    unfold Peered.receive Peered.Agrees
    generalize canservicesRxTask s.fw m = r at hrx
    obtain ⟨fw', es⟩ := r
    have hkeep : ¬ m.isConn → fw'.console = s.fw.console →
        (if m.isConn then some m.src else if Peered.ends s.fw fw' then none else s.peer)
          = if fw'.console.connected then some fw'.console.dstaddr else none := by
      intro hc hcon
      have hends : Peered.ends s.fw fw' = false := by
        rw [Peered.ends, hcon, Bool.and_not_self]
      rw [if_neg hc, hends, hcon]
      exact h
    cases hrx with
    | conn o es hc hb he => exact if_pos hc
    | disc es hd he =>
      have hc : ¬ m.isConn := fun hc => absurd (hc.2.1.symm.trans hd.2.1) (by decide)
      have hends : Peered.ends s.fw s.fw.disconnected = true := by
        rw [Peered.ends, hd.2.2.2.1]
        rfl
      show (if m.isConn then _ else if Peered.ends s.fw s.fw.disconnected then _ else _) = _
      rw [if_neg hc, if_pos hends]
      rfl
    | recv es ht ho hc he =>
      exact hkeep (fun hc' => absurd (hc'.1.symm.trans ht) (by decide)) rfl
    | give ht hc ho => exact hkeep (fun hc' => absurd (hc'.1.symm.trans ht) (by decide)) rfl
    | other power es he hc hd hr ha => exact hkeep hc rfl

theorem Peered.Agrees.up (h : s.Agrees) : s.peer ≠ none ↔ s.fw.console.connected = true := by
  unfold Peered.Agrees at h
  rw [h]
  cases s.fw.console.connected <;> simp

theorem Peered.Agrees.peer (h : s.Agrees) (hc : s.fw.console.connected = true) :
    s.peer = some s.fw.console.dstaddr := by
  unfold Peered.Agrees at h
  rw [h, if_pos hc]

theorem Replies.no_serial {fw : Fw} {m : CanMsg} {es : List Eff} (h : Replies fw m es)
    (bs : List UInt8) : .serialSend bs ∉ es := fun hm => by
  obtain ⟨r, hr, _⟩ := h _ hm
  cases hr

theorem Replies.no_notify {fw : Fw} {m : CanMsg} {es : List Eff} (h : Replies fw m es) :
    .notifyGive ∉ es := fun hm => by
  obtain ⟨r, hr, _⟩ := h _ hm
  cases hr

/-- console data and ACKs that the services take come from the peer -/
theorem FromPeer.polite {m : CanMsg} (h : FromPeer s m) (hc : s.fw.console.connected = true)
    (hm : m.type = .dat ∧ m.object = objConsolerecv ∧ m.data.bytes ≠ [] ∨
      m.type = .ack ∧ m.object = s.fw.console.object) : s.peer = some m.src := by
  have hrx := canservicesRxTask_step s.fw m
  obtain ⟨hserial, hnotify, _⟩ := h
  generalize canservicesRxTask s.fw m = r at hrx hserial hnotify
  obtain ⟨fw', es⟩ := r
  rcases hm with ⟨ht, ho, hne⟩ | ⟨ht, ho⟩
  · cases hrx with
    | conn o es hc he => exact absurd (ht.symm.trans hc.1) (by decide)
    | disc es hd he => exact absurd (ht.symm.trans hd.1) (by decide)
    | recv es _ _ _ he =>
      obtain ⟨b, hb⟩ := List.exists_mem_of_ne_nil _ hne
      exact (hserial _ List.mem_cons_self b hb).2
    | give ht' _ _ => exact absurd (ht.symm.trans ht') (by decide)
    | other power es he hc' hd hr ha => exact absurd ⟨ht, ho, hc⟩ hr
  · cases hrx with
    | conn o es hc he => exact absurd (ht.symm.trans hc.1) (by decide)
    | disc es hd he => exact absurd (ht.symm.trans hd.1) (by decide)
    | recv es ht' _ _ he => exact absurd (ht.symm.trans ht') (by decide)
    | give _ _ _ => exact (hnotify List.mem_cons_self).2
    | other power es he hc' hd hr ha => exact absurd ⟨ht, ho, hc⟩ ha

/-- what the rx task does with a message that is no stranger's -/
theorem Peered.Agrees.fromPeer (h : s.Agrees) {m : CanMsg} {fw' : Fw} {es : List Eff}
    (hrx : RxStep s.fw m fw' es)
    (hpeer : s.fw.console.connected = true →
      m.type = .dat ∧ m.object = objConsolerecv ∧ m.data.bytes ≠ [] ∨
        m.type = .ack ∧ m.object = s.fw.console.object → s.peer = some m.src) :
    (∀ bs, .serialSend bs ∈ es → ∀ b ∈ bs, m.type = .dat ∧ s.peer = some m.src) ∧
    (.notifyGive ∈ es → m.type = .ack ∧ s.peer = some m.src) ∧
    (Peered.ends s.fw fw' = true → m.object = objConsoledisc ∧ s.peer = some m.src) := by
  have hstay : ∀ fw' : Fw, fw'.console = s.fw.console → Peered.ends s.fw fw' = true →
      m.object = objConsoledisc ∧ s.peer = some m.src := by
    intro fw' hcon he
    rw [Peered.ends, hcon, Bool.and_not_self] at he
    cases he
  cases hrx with
  | conn o es hc hb he =>
    refine ⟨fun bs hbs => absurd hbs (he.no_serial bs), fun hn => absurd hn he.no_notify, ?_⟩
    intro hends
    have : (s.fw.console.connected && false) = true := hends
    rw [Bool.and_false] at this
    cases this
  | disc es hd he =>
    refine ⟨fun bs hbs => absurd hbs (he.no_serial bs), fun hn => absurd hn he.no_notify, ?_⟩
    intro _
    exact ⟨hd.2.1, by rw [h.peer hd.2.2.2.1, hd.2.2.2.2]⟩
  | recv es ht ho hc he =>
    refine ⟨?_, ?_, hstay _ rfl⟩
    · intro bs hbs b hb
      rcases List.mem_cons.mp hbs with hbs | hbs
      · obtain rfl := Eff.serialSend.inj hbs
        exact ⟨ht, hpeer hc (.inl ⟨ht, ho, List.ne_nil_of_mem hb⟩)⟩
      · exact absurd hbs (he.no_serial bs)
    · intro hn
      rcases List.mem_cons.mp hn with hn | hn
      · cases hn
      · exact absurd hn he.no_notify
  | give ht hc ho =>
    refine ⟨?_, fun _ => ⟨ht, hpeer hc (.inr ⟨ht, ho⟩)⟩, hstay _ rfl⟩
    intro bs hbs
    cases List.mem_singleton.mp hbs
  | other power es he hc hd hr ha =>
    exact ⟨fun bs hbs => absurd hbs (he.no_serial bs), fun hn => absurd hn he.no_notify,
      hstay _ rfl⟩

theorem fromPeer_iff (h : s.Agrees) (m : CanMsg) : FromPeer s m ↔ (s.peer ≠ none →
    m.type = .dat ∧ m.object = objConsolerecv ∧ m.data.bytes ≠ [] ∨
      m.type = .ack ∧ m.object = s.fw.console.object → s.peer = some m.src) := by
  rw [h.up]
  constructor
  · intro hm hc
    exact hm.polite hc
  · intro hpeer
    obtain ⟨h1, h2, h3⟩ := h.fromPeer (canservicesRxTask_step s.fw m) hpeer
    exact ⟨h1, h2, h3⟩

end

/-- **A run of a node is point to point iff no stranger meddles in it.** -/
theorem point_to_point_iff {s : Peered} (h0 : s.Start) (as : List NodeAct) :
    peered.Along PointToPoint s as ↔ peered.Along NoStranger s as := by
  refine Machine.Along.iff_of_inv (fun _ _ _ => Peered.agrees) ?_ ?_ as
  · intro x a h
    cases a with
    | can m => exact fromPeer_iff h m
    | _ => exact Iff.rfl
  · show s.peer = _
    rw [h0.peer, h0.console]
    rfl

def Peered.boot (a : Addr) : Peered := ⟨Fw.init a, none⟩

/-- console data of the node `b` -/
def consoleData (b : Addr) (c : UInt8) : CanMsg :=
  { CanMsg.zero with
    pri := 1, dst := 16, src := b, type := .dat, object := objConsolerecv, data := .single c }

/-- the node 32 connects, types, acknowledges and disconnects; 33 types too late -/
def politeRun : List NodeAct :=
  [.can (consoleRequest 32 objConsoleconn), .can (consoleData 32 65), .usartTx,
    .can (consoleAck 32), .can (consoleRequest 32 objConsoledisc), .can (consoleData 33 66)]

/-- the node 33 takes the connection over, 32 types -/
def takenOver : List NodeAct :=
  [.can (consoleRequest 32 objConsoleconn), .can (consoleRequest 33 objConsoleconn),
    .can (consoleData 32 65)]

theorem point_to_point_polite : peered.Along PointToPoint (Peered.boot 16) politeRun :=
  (point_to_point_iff ⟨rfl, rfl⟩ politeRun).mpr (by decide)

theorem point_to_point_fails :
    ¬ ∀ s : Peered, s.Start → ∀ as, peered.Along PointToPoint s as := by
  intro hall
  obtain ⟨_, h⟩ := hall (Peered.boot 16) ⟨rfl, rfl⟩ takenOver
  obtain ⟨_, h⟩ := h _ rfl
  obtain ⟨h, _⟩ := h _ rfl
  have hpeer := (FromPeer.serial h [65] (by decide) 65 (by decide)).2
  exact absurd hpeer (by decide)

end Bramble
