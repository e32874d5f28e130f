import Bramble.Firmware.RxTask

/-!
# Reading and writing CAN objects from Linux (`libbramble/canobj.c`)

A process sends a request and takes the first message that matches it from its CAN socket.  Every
socket of the node receives every message for the node's address.  The requests are numbered in
the model, and a message of the firmware is labelled with the request it answers; no code reads the
numbers.

* `Canobj.request`, `Canobj.matched`, `Call.finish`   the three parts of `canobj_write` and
                                                      `canobj_read`;
* `canNet`                                            the machine: any number of processes, the bus,
                                                      the services on every node.
-/

namespace Bramble

/-! ## one call -/

inductive Errno where
  | einval | enotsup | eproto
  deriving DecidableEq, Repr

/-- `struct canobj`, without the socket -/
structure Canobj where
  src : Addr
  dst : Addr
  objid : UInt8
  deriving DecidableEq

/-- `canobj_write (obj, data, len)` or `canobj_read (obj, data, len)` -/
inductive Call where
  | write (data : List UInt8)
  | read (len : Int)
  deriving DecidableEq

namespace Canobj

def request (obj : Canobj) : Call → Except Errno CanMsg
  | .write data =>
    if h : data.length ≤ 8 then
      .ok { CanMsg.zero with
        pri := 1, src := obj.src, dst := obj.dst, type := .wo, object := obj.objid,
        data := ⟨data, h⟩ }
    else .error .einval
  | .read len =>
    if len < 0 ∨ 8 < len then .error .einval
    else .ok { CanMsg.zero with
      pri := 1, src := obj.src, dst := obj.dst, type := .ro, object := obj.objid }

/-- the loop over received messages ends with this one -/
def matched (obj : Canobj) (msg : CanMsg) : Bool :=
  !(msg.dst != obj.src || msg.src != obj.dst || msg.object != obj.objid)

theorem matched_iff {obj : Canobj} {m : CanMsg} : obj.matched m = true ↔
    m.dst = obj.src ∧ m.src = obj.dst ∧ m.object = obj.objid := by
  unfold matched
  simp [and_assoc]

theorem request_ok {obj : Canobj} {c : Call} {m : CanMsg} (h : obj.request c = .ok m) :
    m.src = obj.src ∧ m.dst = obj.dst ∧ m.object = obj.objid := by
  cases c with
  | write data =>
    unfold request at h
    by_cases hlen : data.length ≤ 8
    · simp only [dif_pos hlen] at h
      cases h
      exact ⟨rfl, rfl, rfl⟩
    · simp only [dif_neg hlen] at h
      cases h
  | read len =>
    unfold request at h
    by_cases hlen : len < 0 ∨ 8 < len
    · simp only [if_pos hlen] at h
      cases h
    · simp only [if_neg hlen] at h
      cases h
      exact ⟨rfl, rfl, rfl⟩

end Canobj

/-- the result for the message that matched: the bytes copied to `data` -/
def Call.finish : Call → CanMsg → Except Errno (List UInt8)
  | .write _, msg =>
    match msg.type with
    | .ack => .ok []
    | .nak => .error .enotsup
    | _ => .error .eproto
  | .read len, msg =>
    match msg.type with
    | .ack => if len < msg.dlen then .error .eproto else .ok msg.data.bytes
    | .nak => .error .enotsup
    | _ => .error .eproto

/-! ## the network -/

structure Pending where
  id : Nat
  obj : Canobj
  call : Call
  deriving DecidableEq

structure Proc where
  rxq : List (Nat × CanMsg)
  op : Option Pending
  deriving DecidableEq

/-- a call that matched a message: the request that the message answers, and the result -/
structure Outcome where
  pending : Pending
  label : Nat
  reply : CanMsg
  result : Except Errno (List UInt8)

structure CanNet where
  /-- address of the node on which the processes run -/
  me : Addr
  procs : List Proc
  /-- requests in flight -/
  toFw : List (Nat × CanMsg)
  /-- answers in flight -/
  toProcs : List (Nat × CanMsg)
  /-- the services on each node -/
  fws : Addr → Fw
  issued : Nat
  /-- what the services sent, and for which request -/
  answers : List (Nat × CanMsg)
  done : List Outcome

inductive CanAct where
  /-- a process opens a socket -/
  | spawn
  /-- the process `p`, idle, starts a call -/
  | call (p : Nat) (dst : Addr) (objid : UInt8) (c : Call)
  /-- the `i`-th request in flight reaches the services -/
  | toFw (i : Nat)
  /-- the `i`-th answer in flight reaches the sockets -/
  | toProcs (i : Nat)
  /-- `can_recv_timeout` of the process `p` returns a message -/
  | recv (p : Nat)
  /-- `can_recv_timeout` of the process `p` fails: the time is over, or an error -/
  | giveUp (p : Nat)
  deriving DecidableEq

namespace CanNet

/-- the filters of `can_open` -/
def passes (me : Addr) (m : CanMsg) : Bool := m.dst == me || m.dst == 0x0f

def call (s : CanNet) (p : Nat) (obj : Canobj) (c : Call) : Option CanNet :=
  match s.procs[p]? with
  | some ⟨rxq, none⟩ =>
    match obj.request c with
    | .ok m => some { s with
        procs := s.procs.set p ⟨rxq, some ⟨s.issued, obj, c⟩⟩
        toFw := s.toFw ++ [(s.issued, m)]
        issued := s.issued + 1 }
    | .error _ => some s
  | _ => none

def receive (s : CanNet) (i : Nat) : Option CanNet :=
  (s.toFw[i]?).map fun e =>
    let r := canservicesRxTask (s.fws e.2.dst) e.2
    let replies := (sends r.2).map fun m => (e.1, m)
    { s with
      toFw := s.toFw.eraseIdx i
      fws := Function.update s.fws e.2.dst r.1
      toProcs := s.toProcs ++ replies
      answers := s.answers ++ replies }

def deliver (s : CanNet) (i : Nat) : Option CanNet :=
  (s.toProcs[i]?).map fun e =>
    { s with
      toProcs := s.toProcs.eraseIdx i
      procs := s.procs.map fun q => if passes s.me e.2 then { q with rxq := q.rxq ++ [e] } else q }

def recv (s : CanNet) (p : Nat) : Option CanNet :=
  match s.procs[p]? with
  | some ⟨(l, m) :: rxq, some o⟩ =>
    if o.obj.matched m then some { s with
      procs := s.procs.set p ⟨rxq, none⟩, done := s.done ++ [⟨o, l, m, o.call.finish m⟩] }
    else some { s with procs := s.procs.set p ⟨rxq, some o⟩ }
  | _ => none

def giveUp (s : CanNet) (p : Nat) : Option CanNet :=
  match s.procs[p]? with
  | some ⟨rxq, some _⟩ => some { s with procs := s.procs.set p ⟨rxq, none⟩ }
  | _ => none

def step (s : CanNet) : CanAct → Option CanNet
  | .spawn => some { s with procs := s.procs ++ [⟨[], none⟩] }
  | .call p dst objid c => s.call p ⟨s.me, dst, objid⟩ c
  | .toFw i => s.receive i
  | .toProcs i => s.deliver i
  | .recv p => s.recv p
  | .giveUp p => s.giveUp p

/-- nothing is in flight, no call has been made -/
structure Start (s : CanNet) : Prop where
  fws : ∀ a, (s.fws a).srcaddr = a
  procs : s.procs = []
  toFw : s.toFw = []
  toProcs : s.toProcs = []
  answers : s.answers = []
  done : s.done = []

/-- The call that succeeded took the services' answer to its own request, and the bytes are those of
that answer. -/
def Agrees (s : CanNet) (o : Outcome) : Prop :=
  ∀ bs, o.result = .ok bs → o.label = o.pending.id ∧ (o.pending.id, o.reply) ∈ s.answers ∧
    o.reply.type = .ack ∧ (∀ len, o.pending.call = .read len → bs = o.reply.data.bytes)

end CanNet

def canNet : Machine CanNet CanAct := ⟨CanNet.step⟩

theorem CanNet.step_me {x y : CanNet} {a : CanAct} (h : x.step a = some y) : y.me = x.me := by
  cases a with
  | spawn =>
    cases h
    rfl
  | call p dst objid c =>
    replace h : x.call p ⟨x.me, dst, objid⟩ c = some y := h
    unfold CanNet.call at h
    split at h
    · split at h <;> cases h <;> rfl
    · cases h
  | toFw i =>
    obtain ⟨_, _, rfl⟩ := Option.map_eq_some_iff.mp h
    rfl
  | toProcs i =>
    obtain ⟨_, _, rfl⟩ := Option.map_eq_some_iff.mp h
    rfl
  | recv p =>
    replace h : x.recv p = some y := h
    unfold CanNet.recv at h
    split at h
    · split at h <;> cases h <;> rfl
    · cases h
  | giveUp p =>
    replace h : x.giveUp p = some y := h
    unfold CanNet.giveUp at h
    split at h <;> cases h
    rfl

end Bramble
