import Bramble.Firmware.ConsoleTask
import Bramble.Helper.Reassembly

/-!
# The serial-to-stdout stream: firmware, bus and one helper

The two parties and the messages in flight.  The bus hands over any message in flight at any time
(so it delays and reorders), and loses or duplicates none: a delivery removes the message it
delivers.  The transmit queue and the mailboxes of the firmware are part of this bus.

The fields after `toFw` record history for the statements; no step reads them.

* `session`         the machine;
* `Session.Start`    a helper connected from the start;
* `Session.Safe`     what the console stream promises about the data delivered so far.
-/

namespace Bramble

structure Session where
  fw : Fw
  helper : Helper
  /-- DAT messages in flight -/
  toHelper : List Frame
  /-- messages of the helper in flight; an ACK carries the number of the burst it was sent for -/
  toFw : List (Nat × CanMsg)
  /-- bytes `serial_recv` removed from `serialrxq` -/
  taken : List UInt8
  /-- DAT messages accepted by `canbus_send` -/
  sent : List Frame
  /-- DAT messages delivered to the running helper -/
  delivered : List Frame
  /-- bursts of the ACKs the helper sent -/
  acksOut : List Nat
  /-- bursts of the ACKs the firmware received -/
  acksIn : List Nat

inductive SessionAct where
  /-- `usart1_isr` receives a byte -/
  | uart (c : UInt8)
  /-- one step of the console task -/
  | task
  /-- the 500 ms wait expires -/
  | ackTimeout
  /-- the `i`-th message in flight reaches the helper -/
  | toHelper (i : Nat)
  /-- the `i`-th message in flight reaches the firmware -/
  | toFw (i : Nat)
  /-- the receive timer of the helper expires -/
  | recvTimeout
  deriving DecidableEq

/-- number of bursts ended in a list of messages -/
def eots (fs : List Frame) : Nat := fs.countP fun f => f.msg.eot

namespace Session

/-- the next DAT message, with its history fields -/
def label (s : Session) (m : CanMsg) : Frame := ⟨m, s.sent.length, eots s.sent⟩

def afterTask (s : Session) (fw : Fw) : TaskEff → Session
  | .quiet => { s with fw := fw }
  | .took bs => { s with fw := fw, taken := s.taken ++ bs }
  | .sent m =>
    { s with fw := fw, sent := s.sent ++ [s.label m], toHelper := s.toHelper ++ [s.label m] }

def taskStep (s : Session) (ev : TaskEv) : Option Session :=
  (consoleTask s.fw ev).map fun r => s.afterTask r.1 r.2

/-- the burst written last -/
def lastBurst (h : Helper) : Nat := (h.stdout.getLast?.map Frame.burst).getD 0

def afterHelper (s : Session) (r : Helper × List CanMsg) : Session :=
  { s with
    helper := r.1
    toFw := s.toFw ++ r.2.map fun m => (lastBurst r.1, m)
    acksOut := s.acksOut ++ (r.2.filter fun m => m.type = .ack).map fun _ => lastBurst r.1 }

def deliver (s : Session) (i : Nat) : Option Session :=
  if s.helper.alive then
    (s.toHelper[i]?).map fun f =>
      { s with toHelper := s.toHelper.eraseIdx i, delivered := s.delivered ++ [f] }.afterHelper
        (s.helper.canCb f)
  else none

/-- a message reaches the firmware; its replies go onto the bus -/
def receive (s : Session) (i : Nat) : Option Session :=
  (s.toFw[i]?).map fun bm =>
    let r := canservicesRxTask s.fw bm.2
    { s with
      fw := r.1
      toFw := s.toFw.eraseIdx i
      toHelper := s.toHelper ++ (sends r.2).map fun m => ⟨m, 0, 0⟩
      acksIn := if bm.2.type = .ack then s.acksIn ++ [bm.1] else s.acksIn }

def expire (s : Session) : Option Session :=
  if s.helper.alive ∧ s.helper.recvTimer then some (s.afterHelper s.helper.recvTimeoutCb) else none

def step (s : Session) : SessionAct → Option Session
  | .uart c => some { s with fw := { s.fw with serial := s.fw.serial.usart1IsrRx c } }
  | .task => s.taskStep .run
  | .ackTimeout => s.taskStep .timeout
  | .toHelper i => s.deliver i
  | .toFw i => s.receive i
  | .recvTimeout => s.expire

/-- Connected, nothing sent, nothing in flight; the serial port may hold anything. -/
structure Start (s : Session) : Prop where
  console : s.fw.console = ⟨s.helper.srcaddr, s.helper.objid, true⟩
  peer : s.helper.dstaddr = s.fw.srcaddr
  objid : s.helper.objid = objConsolesend
  task : s.fw.task = ⟨.recv, 0, 0, false⟩
  chunk : s.helper.chunk = emptyChunk
  stdout : s.helper.stdout = []
  alive : s.helper.died = none
  toHelper : s.toHelper = []
  toFw : s.toFw = []
  taken : s.taken = []
  sent : s.sent = []
  delivered : s.delivered = []
  acksOut : s.acksOut = []
  acksIn : s.acksIn = []

/-- A firmware at `a` and a helper at `b`, connected a moment ago. -/
def connect (a b : Addr) : Session where
  fw :=
    { srcaddr := a, console := ⟨b, objConsolesend, true⟩, task := ⟨.recv, 0, 0, false⟩
      serial := ⟨[], 0, [], true, false⟩, power := ⟨true, true, true, 1, 0⟩ }
  helper :=
    { srcaddr := b, dstaddr := a, objid := objConsolesend, chunk := emptyChunk, recvTimer := false
      ackTimer := false, stdinWatcher := true, stdout := [], died := none }
  toHelper := []
  toFw := []
  taken := []
  sent := []
  delivered := []
  acksOut := []
  acksIn := []

theorem connect_start (a b : Addr) : (connect a b).Start := by
  constructor <;> rfl

/-! ## what is observed -/

/-- all messages of the burst have been sent and none of them is in flight -/
def completed (s : Session) (b : Nat) : Bool :=
  (s.sent.any fun f => f.burst == b && f.msg.eot) && !(s.toHelper.any fun f => f.burst == b)

/-- payloads of the completed bursts, in the order sent -/
def completedBytes (s : Session) : List UInt8 :=
  (s.sent.filter fun f => s.completed f.burst).flatMap Frame.payload

def completedBursts (s : Session) : Nat :=
  s.sent.countP fun f => f.msg.eot && s.completed f.burst

/-- What is written is in the order sent and not written twice, and a delivered message is on
stdout or still in its slot of the chunk array. -/
structure Safe (s : Session) : Prop where
  ordered : s.helper.stdout.Pairwise fun f g => f.id < g.id
  kept : ∀ f ∈ s.delivered, f ∈ s.helper.stdout ∨ f ∈ s.helper.chunk.toList

end Session

def session : Machine Session SessionAct := ⟨Session.step⟩

end Bramble
