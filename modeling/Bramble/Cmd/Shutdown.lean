import Bramble.Canobj.Agreement
import Bramble.Session.Replies

/-!
# Shutting a node down (`cmd/shutdown.c`)

`shutdown_main` writes the object SHUTDOWN of the node, reads it until it says that the operating
system has stopped, and then reads the object POWER until the power is off.  Each of these calls is one
of `canobj.c`, among the calls of other processes to the same and other nodes; meanwhile the pi, the
button and the tasks of every node do what they like with its power.

* `shutdownNet`          the machine: the network with one process that runs `shutdown_main`;
* `ShutdownSys.Inv`      the invariant: what the services have said so far, in order;
* `shutdown_in_order`    when it returns, they have notified the shutdown task, and after that seen
                         the system stopped, and after that the power off.
-/

namespace Bramble
open CanNet

/-- a request that the services have handled, and their state before it -/
structure Serviced where
  id : Nat
  request : CanMsg
  fw : Fw
  /-- `shutdown_main` is in the call that made the request -/
  own : Bool

/-- program points of `shutdown_main` -/
inductive ShutdownPc where
  /-- at `can_open` -/
  | start
  /-- at `write_obj_empty`, and in it -/
  | write | writing
  /-- at the first `read_obj_byte`, and in it -/
  | readDown | readingDown
  /-- at the second one, and in it -/
  | readPower | readingPower
  /-- 0 was returned -/
  | done
  | died
  deriving DecidableEq

structure ShutdownSys where
  net : CanNet
  pc : ShutdownPc
  /-- the socket -/
  p : Nat
  /-- `slot | CANMSG_ADDR_CONTROL` -/
  dst : Addr
  handled : List Serviced

inductive ShutdownAct where
  /-- `shutdown_main` goes on, to a call -/
  | main
  /-- `can_recv_timeout` in its call returns a message -/
  | recv
  /-- it fails -/
  | fail
  /-- the bus and the other processes -/
  | net (a : CanAct)
  /-- the power state of a node changes -/
  | power (a : Addr) (power : Power)

namespace ShutdownPc

/-- the call at a program point, and where it waits -/
def call : ShutdownPc → Option (UInt8 × Call × ShutdownPc)
  | write => some (objShutdown, .write [], writing)
  | readDown => some (objShutdown, .read 8, readingDown)
  | readPower => some (objPower, .read 8, readingPower)
  | start | writing | readingDown | readingPower | done | died => none

/-- after the call -/
def next : ShutdownPc → Except Errno (List UInt8) → ShutdownPc
  | writing, .ok _ => readDown
  | readingDown, .ok [val] => if val = 0 then readDown else readPower
  | readingPower, .ok [val] => if val = 1 then readPower else done
  | _, _ => died

end ShutdownPc

namespace ShutdownSys

/-- what another process does, or the bus -/
def others (s : ShutdownSys) : CanAct → Bool
  | .call q _ _ _ | .recv q | .giveUp q => s.pc = .start || q != s.p
  | .spawn | .toFw _ | .toProcs _ => true

/-- the call that `shutdown_main` is in -/
def op (s : ShutdownSys) : Option Pending := if s.pc = .start then none else s.net.procs[s.p]?.bind (·.op)

def logged (s : ShutdownSys) : CanAct → List Serviced
  | .toFw i => (s.net.toFw[i]?).toList.map fun e =>
      ⟨e.1, e.2, s.net.fws e.2.dst, s.op.any fun o => o.id = e.1⟩
  | .spawn | .call .. | .toProcs _ | .recv _ | .giveUp _ => []

def main (s : ShutdownSys) : Option ShutdownSys :=
  match s.pc with
  | .start => (s.net.step .spawn).map fun net =>
      { s with net := net, p := s.net.procs.length, pc := .write }
  | pc => pc.call.bind fun r => (s.net.step (.call s.p s.dst r.1 r.2.1)).map fun net =>
      { s with net := net, pc := r.2.2 }

def recv (s : ShutdownSys) : Option ShutdownSys :=
  (s.net.step (.recv s.p)).map fun net =>
    { s with
      net := net
      pc := match net.done.drop s.net.done.length with
        | [] => s.pc
        | o :: _ => s.pc.next o.result }

def step (s : ShutdownSys) : ShutdownAct → Option ShutdownSys
  | .main => s.main
  | .recv => if s.pc = .start then none else s.recv
  | .fail => if s.pc = .start then none else
      (s.net.step (.giveUp s.p)).map fun net => { s with net := net, pc := .died }
  | .net a =>
    if s.others a then
      (s.net.step a).map fun net => { s with net := net, handled := s.handled ++ s.logged a }
    else none
  | .power a power =>
    some { s with net := { s.net with
      fws := Function.update s.net.fws a { s.net.fws a with power := power } } }

/-- A call starts only when no request for its object is in flight, and none of its answers is in
flight or in the socket of the call. -/
def Alone (s : ShutdownSys) : ShutdownAct → Prop
  | .main => ∀ r ∈ s.pc.call, Bramble.Alone s.net (.call s.p s.dst r.1 r.2.1)
  | .net a => Bramble.Alone s.net a
  | .recv | .fail | .power _ _ => True

instance (s : ShutdownSys) : ∀ a, Decidable (Alone s a)
  | .main => inferInstanceAs (Decidable (∀ r ∈ s.pc.call, _))
  | .net a => inferInstanceAs (Decidable (Bramble.Alone s.net a))
  | .recv | .fail | .power _ _ => inferInstanceAs (Decidable True)

/-- nothing has happened -/
structure Start (s : ShutdownSys) : Prop where
  net : s.net.Start
  pc : s.pc = .start
  handled : s.handled = []

end ShutdownSys

def shutdownNet : Machine ShutdownSys ShutdownAct := ⟨ShutdownSys.step⟩

/-! ## what the services have said -/

/-- a request of `shutdown_main` itself, which runs on the node `me`, to `dst` -/
structure Asks (me dst : Addr) (type : MsgType) (object : UInt8) (h : Serviced) : Prop where
  own : h.own = true
  src : h.request.src = me
  dst : h.request.dst = dst
  type : h.request.type = type
  object : h.request.object = object

/-- its empty write of SHUTDOWN; the shutdown task was notified -/
def Notified (me dst : Addr) (h : Serviced) : Prop :=
  Asks me dst .wo objShutdown h ∧ h.request.dlen = 0 ∧
    (canservicesRxTask h.fw h.request).1.power = powerShutdown h.fw.power

/-- its read of SHUTDOWN; the RUNNING line was low -/
def Stopped (me dst : Addr) (h : Serviced) : Prop :=
  Asks me dst .ro objShutdown h ∧ h.fw.power.running = false

/-- its read of POWER; RUN_PG was low -/
def Off (me dst : Addr) (h : Serviced) : Prop :=
  Asks me dst .ro objPower h ∧ h.fw.power.runPg = false

/-- there are such requests, in this order -/
def InTurn (hs : List Serviced) (ps : List (Serviced → Prop)) : Prop :=
  ∃ l, l.Sublist hs ∧ List.Forall₂ (fun h P => P h) l ps

theorem InTurn.nil (hs : List Serviced) : InTurn hs [] := ⟨[], List.nil_sublist _, .nil⟩

theorem InTurn.append {hs hs' : List Serviced} {ps ps' : List (Serviced → Prop)} (h : InTurn hs ps)
    (h' : InTurn hs' ps') : InTurn (hs ++ hs') (ps ++ ps') := by
  obtain ⟨l, hl, hp⟩ := h
  obtain ⟨l', hl', hp'⟩ := h'
  exact ⟨l ++ l', hl.append hl', List.rel_append hp hp'⟩

theorem InTurn.more {hs : List Serviced} {ps : List (Serviced → Prop)} (h : InTurn hs ps)
    (hs' : List Serviced) : InTurn (hs ++ hs') ps := by
  have happ := h.append (InTurn.nil hs')
  rw [List.append_nil] at happ
  exact happ

theorem InTurn.one {hs : List Serviced} {h : Serviced} {P : Serviced → Prop} (hm : h ∈ hs) (hp : P h) :
    InTurn hs [P] := ⟨[h], List.singleton_sublist.mpr hm, .cons hp .nil⟩

/-- what must have been said at a program point -/
def ShutdownPc.said (me dst : Addr) : ShutdownPc → List (Serviced → Prop)
  | .start | .write | .writing | .died => []
  | .readDown | .readingDown => [Notified me dst]
  | .readPower | .readingPower => [Notified me dst, Stopped me dst]
  | .done => [Notified me dst, Stopped me dst, Off me dst]

/-- the object and the call that it waits for -/
def ShutdownPc.waits : ShutdownPc → Option (UInt8 × Call)
  | .writing => some (objShutdown, .write [])
  | .readingDown => some (objShutdown, .read 8)
  | .readingPower => some (objPower, .read 8)
  | .start | .write | .readDown | .readPower | .done | .died => none

section
variable {fw : Fw} {m r : CanMsg}

theorem rx_shutdown (hreq : m.type = .wo ∨ m.type = .ro) (ho : m.object = objShutdown) :
    canservicesRxTask fw m = canservicesShutdown fw m := by
  rw [rx_request fw m (by tauto)]
  unfold requestDispatch
  rw [ho]
  rfl

theorem rx_power (hreq : m.type = .ro) (ho : m.object = objPower) :
    canservicesRxTask fw m = canservicesPower fw m := by
  rw [rx_request fw m (.inl hreq)]
  unfold requestDispatch
  rw [ho]
  rfl

theorem shutdown_notifies (ht : m.type = .wo) (ho : m.object = objShutdown) (hd : m.dlen = 0) :
    (canservicesRxTask fw m).1.power = powerShutdown fw.power := by
  rw [rx_shutdown (.inl ht) ho]
  unfold canservicesShutdown
  rw [ht]
  simp only
  rw [if_neg (not_not.mpr hd)]

theorem shutdown_says (ht : m.type = .ro) (ho : m.object = objShutdown)
    (hr : r ∈ sends (canservicesRxTask fw m).2) :
    r.data.bytes = [if powerIsShutdown fw.power then 1 else 0] := by
  rw [rx_shutdown (.inr ht) ho] at hr
  unfold canservicesShutdown at hr
  rw [ht] at hr
  rw [List.mem_singleton.mp hr]
  rfl

theorem power_says (ht : m.type = .ro) (ho : m.object = objPower)
    (hr : r ∈ sends (canservicesRxTask fw m).2) :
    r.data.bytes = [if powerGetState fw.power then 1 else 0] := by
  rw [rx_power ht ho] at hr
  unfold canservicesPower at hr
  rw [ht] at hr
  rw [List.mem_singleton.mp hr]
  rfl

end

theorem request_write_empty {obj : Canobj} {m : CanMsg} (h : obj.request (.write []) = .ok m) :
    m.type = .wo ∧ m.dlen = 0 := by
  have hlen : ([] : List UInt8).length ≤ 8 := Nat.zero_le 8
  unfold Canobj.request at h
  simp only [dif_pos hlen] at h
  cases h
  exact ⟨rfl, rfl⟩

theorem request_read {obj : Canobj} {m : CanMsg} (h : obj.request (.read 8) = .ok m) :
    m.type = .ro := by
  have hlen : ¬ ((8 : Int) < 0 ∨ (8 : Int) < 8) := by decide
  unfold Canobj.request at h
  simp only [if_neg hlen] at h
  cases h
  rfl

/-- **What a call adds**: nothing, or the next thing in turn, if it does not end the process. -/
theorem next_said (pc : ShutdownPc) (obj : Canobj) {c : Call} (hw : pc.waits = some (obj.objid, c))
    {h : Serviced} {r : CanMsg} {bs : List UInt8} (hreq : obj.request c = .ok h.request)
    (hown : h.own = true) (hr : r ∈ sends (canservicesRxTask h.fw h.request).2)
    (hbs : ∀ len, c = .read len → bs = r.data.bytes) :
    (pc.next (.ok bs)).said obj.src obj.dst = pc.said obj.src obj.dst ∨
      ∃ P, (pc.next (.ok bs)).said obj.src obj.dst = pc.said obj.src obj.dst ++ [P] ∧ P h := by
  obtain ⟨hsrc, hdst, hobj⟩ := Canobj.request_ok hreq
  unfold ShutdownPc.waits at hw
  cases pc <;> simp only [Option.some.injEq, Prod.mk.injEq, reduceCtorEq] at hw
  case writing =>
    obtain ⟨ho, rfl⟩ := hw
    obtain ⟨ht, hd⟩ := request_write_empty hreq
    have hobject := hobj.trans ho.symm
    exact .inr ⟨_, rfl, ⟨hown, hsrc, hdst, ht, hobject⟩, hd, shutdown_notifies ht hobject hd⟩
  case readingDown =>
    obtain ⟨ho, rfl⟩ := hw
    have hobject := hobj.trans ho.symm
    have hdata := shutdown_says (request_read hreq) hobject hr
    rw [hbs 8 rfl, hdata]
    unfold ShutdownPc.next
    by_cases hrun : h.fw.power.running = false
    · have hval : powerIsShutdown h.fw.power = true := by
        unfold powerIsShutdown
        rw [hrun]
        rfl
      rw [hval]
      exact .inr ⟨_, rfl, ⟨hown, hsrc, hdst, request_read hreq, hobject⟩, hrun⟩
    · have hval : powerIsShutdown h.fw.power = false := by
        unfold powerIsShutdown
        rw [Bool.eq_true_of_not_eq_false hrun]
        rfl
      rw [hval]
      exact .inl rfl
  case readingPower =>
    obtain ⟨ho, rfl⟩ := hw
    have hobject := hobj.trans ho.symm
    have hdata := power_says (request_read hreq) hobject hr
    rw [hbs 8 rfl, hdata]
    unfold ShutdownPc.next powerGetState
    by_cases hpg : h.fw.power.runPg = false
    · rw [hpg]
      exact .inr ⟨_, rfl, ⟨hown, hsrc, hdst, request_read hreq, hobject⟩, hpg⟩
    · rw [Bool.eq_true_of_not_eq_false hpg]
      exact .inl rfl

/-! ## the invariant -/

namespace ShutdownSys

/-- The process is in the call `o`; `pre` was handled before it, `post` since. -/
structure Waiting (s : ShutdownSys) (o : Pending) (pre post : List Serviced) : Prop where
  op : ∃ rxq, s.net.procs[s.p]? = some ⟨rxq, some o⟩
  fresh : o.id < s.net.issued
  handled : s.handled = pre ++ post
  said : InTurn pre (s.pc.said s.net.me s.dst)
  pre : ∀ h ∈ pre, h.id ≠ o.id
  post : ∀ h ∈ post, h.id = o.id → o.obj.request o.call = .ok h.request ∧ h.own = true
  toFw : ∀ e ∈ s.net.toFw, e.1 = o.id → o.obj.request o.call = .ok e.2

structure Inv (s : ShutdownSys) : Prop where
  honest : Honest s.net
  ids : ∀ e ∈ s.net.toFw, e.1 < s.net.issued
  past : ∀ h ∈ s.handled, h.id < s.net.issued
  logged : ∀ e ∈ s.net.answers, ∃ h ∈ s.handled, h.id = e.1 ∧
    e.2 ∈ sends (canservicesRxTask h.fw h.request).2
  waits : ∀ objid c, s.pc.waits = some (objid, c) → ∃ o pre post, s.Waiting o pre post ∧
    o.obj = ⟨s.net.me, s.dst, objid⟩ ∧ o.call = c
  rests : s.pc.waits = none → InTurn s.handled (s.pc.said s.net.me s.dst)

/-- What a step of the others does to what the process can see. -/
structure Aside (s : ShutdownSys) (a : CanAct) (net : CanNet) : Prop where
  issued : s.net.issued ≤ net.issued
  toFw : ∀ e ∈ net.toFw, e ∈ s.net.toFw ∨ (e.1 = s.net.issued ∧ e.1 < net.issued)
  answers : ∀ e ∈ net.answers, e ∈ s.net.answers ∨ ∃ h ∈ s.logged a, h.id = e.1 ∧
    e.2 ∈ sends (canservicesRxTask h.fw h.request).2
  logged : ∀ h ∈ s.logged a, (h.id, h.request) ∈ s.net.toFw
  own : ∀ h ∈ s.logged a, ∀ o, s.op = some o → h.id = o.id → h.own = true
  op : s.pc ≠ .start → ∀ rxq op, s.net.procs[s.p]? = some ⟨rxq, op⟩ →
    ∃ rxq', net.procs[s.p]? = some ⟨rxq', op⟩

section
variable {s t : ShutdownSys}

/-- a step that changes nothing but the processes -/
theorem aside_procs {a : CanAct} {net : CanNet} (hl : s.logged a = [])
    (hi : net.issued = s.net.issued) (hf : net.toFw = s.net.toFw) (ha : net.answers = s.net.answers)
    (hop : s.pc ≠ .start → ∀ rxq op, s.net.procs[s.p]? = some ⟨rxq, op⟩ →
      ∃ rxq', net.procs[s.p]? = some ⟨rxq', op⟩) : s.Aside a net where
  issued := Nat.le_of_eq hi.symm
  toFw := fun _ he => .inl (hf ▸ he)
  answers := fun _ he => .inl (ha ▸ he)
  logged := fun _ hh => absurd (hl ▸ hh) List.not_mem_nil
  own := fun _ hh => absurd (hl ▸ hh) List.not_mem_nil
  op := hop

theorem set_other {procs : List Proc} {p q : Nat} (hne : q ≠ p) (x : Proc) {rxq : List (Nat × CanMsg)}
    {op : Option Pending} (h : procs[p]? = some ⟨rxq, op⟩) :
    ∃ rxq', (procs.set q x)[p]? = some ⟨rxq', op⟩ :=
  ⟨rxq, by rw [List.getElem?_set_ne hne]; exact h⟩

theorem others_ne {q : Nat} (h : (s.pc = .start || q != s.p) = true) (hpc : s.pc ≠ .start) :
    q ≠ s.p := by
  rw [Bool.or_eq_true, decide_eq_true_iff, bne_iff_ne] at h
  exact h.resolve_left hpc

theorem aside_step {a : CanAct} {net : CanNet} (ho : s.others a = true)
    (hs : s.net.step a = some net) : s.Aside a net := by
  cases a with
  | spawn =>
    cases hs
    refine aside_procs rfl rfl rfl rfl fun _ rxq op hp => ⟨rxq, ?_⟩
    show (s.net.procs ++ [⟨[], none⟩])[s.p]? = _
    rw [List.getElem?_append_left (List.getElem?_eq_some_iff.mp hp).1]
    exact hp
  | call q dst objid c =>
    replace hs : s.net.call q ⟨s.net.me, dst, objid⟩ c = some net := hs
    unfold CanNet.call at hs
    split at hs
    · rename_i rxq hq
      split at hs
      · rename_i m hm
        cases hs
        refine ⟨Nat.le_succ _, fun e he => ?_, fun e he => .inl he,
          fun _ hh => absurd hh List.not_mem_nil, fun _ hh => absurd hh List.not_mem_nil,
          fun hpc rxq op hp => set_other (others_ne ho hpc) _ hp⟩
        rcases List.mem_append.mp he with he | he
        · exact .inl he
        · rw [List.mem_singleton.mp he]
          exact .inr ⟨rfl, Nat.lt_succ_self _⟩
      · cases hs
        exact aside_procs rfl rfl rfl rfl fun _ rxq op hp => ⟨rxq, hp⟩
    · cases hs
  | toFw i =>
    obtain ⟨e, hi, rfl⟩ := Option.map_eq_some_iff.mp hs
    have hl : s.logged (.toFw i) =
        [⟨e.1, e.2, s.net.fws e.2.dst, s.op.any fun o => o.id = e.1⟩] := by
      simp only [logged, hi, Option.toList_some, List.map_singleton]
    refine ⟨Nat.le_refl _, fun e' he' => .inl (List.mem_of_mem_eraseIdx he'), fun e' he' => ?_,
      fun h hh => ?_, fun h hh o hop hid => ?_, fun _ rxq op hp => ⟨rxq, hp⟩⟩
    · rcases List.mem_append.mp he' with he' | he'
      · exact .inl he'
      · obtain ⟨r, hr, rfl⟩ := List.mem_map.mp he'
        exact .inr ⟨_, hl ▸ List.mem_singleton_self _, rfl, hr⟩
    · rw [hl] at hh
      rw [List.mem_singleton.mp hh]
      exact List.mem_of_getElem? hi
    · rw [hl] at hh
      rw [List.mem_singleton.mp hh] at hid ⊢
      rw [hop]
      exact decide_eq_true hid.symm
  | toProcs i =>
    obtain ⟨e, hi, rfl⟩ := Option.map_eq_some_iff.mp hs
    refine aside_procs rfl rfl rfl rfl fun _ rxq op hp => ?_
    show ∃ rxq', (s.net.procs.map _)[s.p]? = _
    rw [List.getElem?_map, hp, Option.map_some]
    split <;> exact ⟨_, rfl⟩
  | recv q =>
    replace hs : s.net.recv q = some net := hs
    unfold CanNet.recv at hs
    split at hs
    · split at hs <;> cases hs <;>
        exact aside_procs rfl rfl rfl rfl fun hpc rxq op hp => set_other (others_ne ho hpc) _ hp
    · cases hs
  | giveUp q =>
    replace hs : s.net.giveUp q = some net := hs
    unfold CanNet.giveUp at hs
    split at hs
    · cases hs
      exact aside_procs rfl rfl rfl rfl fun hpc rxq op hp => set_other (others_ne ho hpc) _ hp
    · cases hs

theorem Waiting.aside {o : Pending} {pre post : List Serviced} (h : s.Waiting o pre post)
    (hpc : s.pc ≠ .start) {a : CanAct} {net : CanNet} (ha : s.Aside a net) (hm : net.me = s.net.me) :
    Waiting { s with net := net, handled := s.handled ++ s.logged a } o pre (post ++ s.logged a) where
  op := by
    obtain ⟨rxq, hop⟩ := h.op
    exact ha.op hpc rxq (some o) hop
  fresh := Nat.lt_of_lt_of_le h.fresh ha.issued
  handled := by
    show s.handled ++ s.logged a = _
    rw [h.handled, List.append_assoc]
  said := by
    show InTurn pre (s.pc.said net.me s.dst)
    rw [hm]
    exact h.said
  pre := h.pre
  post := fun h' hh' hid => by
    rcases List.mem_append.mp hh' with hh' | hh'
    · exact h.post h' hh' hid
    · obtain ⟨rxq, hop⟩ := h.op
      have hown : s.op = some o := by
        unfold ShutdownSys.op
        rw [if_neg hpc, hop]
        rfl
      exact ⟨h.toFw _ (ha.logged h' hh') hid, ha.own h' hh' o hown hid⟩
  toFw := fun e he hid => by
    rcases ha.toFw e he with he | ⟨hnew, _⟩
    · exact h.toFw e he hid
    · have := h.fresh
      omega

theorem Inv.net (h : s.Inv) {a : CanAct} {net : CanNet} (hg : Bramble.Alone s.net a)
    (ho : s.others a = true) (hs : s.net.step a = some net) :
    Inv { s with net := net, handled := s.handled ++ s.logged a } := by
  have ha := aside_step ho hs
  have hm := CanNet.step_me hs
  refine ⟨honest_step h.honest hg hs, fun e he => ?_, fun h' hh' => ?_, fun e he => ?_,
    fun objid c hw => ?_, fun hw => ?_⟩
  · rcases ha.toFw e he with he | ⟨_, hnew⟩
    · exact Nat.lt_of_lt_of_le (h.ids e he) ha.issued
    · exact hnew
  · rcases List.mem_append.mp hh' with hh' | hh'
    · exact Nat.lt_of_lt_of_le (h.past h' hh') ha.issued
    · exact Nat.lt_of_lt_of_le (h.ids _ (ha.logged h' hh')) ha.issued
  · rcases ha.answers e he with he | ⟨h', hh', hanswer⟩
    · obtain ⟨h', hh', hanswer⟩ := h.logged e he
      exact ⟨h', List.mem_append_left _ hh', hanswer⟩
    · exact ⟨h', List.mem_append_right _ hh', hanswer⟩
  · obtain ⟨o, pre, post, hwait, hobj⟩ := h.waits objid c hw
    have hpc : s.pc ≠ .start := fun hpc => by
      rw [show _ = s.pc from rfl, hpc] at hw
      cases hw
    refine ⟨o, pre, _, hwait.aside hpc ha hm, ?_⟩
    show o.obj = ⟨net.me, s.dst, objid⟩ ∧ o.call = c
    rw [hm]
    exact hobj
  · show InTurn _ (s.pc.said net.me s.dst)
    rw [hm]
    exact (h.rests hw).more _

/-- the power of a node changes: the invariant knows nothing of it -/
theorem Inv.power (h : s.Inv) (a : Addr) (power : Power) : Inv { s with net := { s.net with
    fws := Function.update s.net.fws a { s.net.fws a with power := power } } } := by
  have hhonest := h.honest
  refine ⟨⟨fun b => ?_, hhonest.requests, hhonest.own, hhonest.answers, hhonest.flight,
    hhonest.sockets, hhonest.done⟩, h.ids, h.past, h.logged, fun objid c hw => ?_, h.rests⟩
  · show (Function.update s.net.fws a _ b).srcaddr = b
    by_cases hb : b = a
    · rw [hb, Function.update_self]
      exact hhonest.fws a
    · rw [Function.update_of_ne hb]
      exact hhonest.fws b
  · obtain ⟨o, pre, post, hwait, hobj⟩ := h.waits objid c hw
    exact ⟨o, pre, post, ⟨hwait.op, hwait.fresh, hwait.handled, hwait.said, hwait.pre, hwait.post,
      hwait.toFw⟩, hobj⟩

/-- a step of the process that only takes messages from its socket, or gives up -/
theorem Inv.socket (h : s.Inv) {net : CanNet} {pc : ShutdownPc} (hhonest : Honest net)
    (hf : net.toFw = s.net.toFw) (hi : net.issued = s.net.issued)
    (ha : net.answers = s.net.answers) (hm : net.me = s.net.me)
    (hwaits : ∀ objid c, pc.waits = some (objid, c) → ∃ o pre post,
      Waiting { s with net := net, pc := pc } o pre post ∧
        o.obj = ⟨s.net.me, s.dst, objid⟩ ∧ o.call = c)
    (hrests : pc.waits = none → InTurn s.handled (pc.said s.net.me s.dst)) :
    Inv { s with net := net, pc := pc } where
  honest := hhonest
  ids := fun e he => by
    show e.1 < net.issued
    rw [hi]
    exact h.ids e (hf ▸ he)
  past := fun h' hh' => by
    show h'.id < net.issued
    rw [hi]
    exact h.past h' hh'
  logged := fun e he => h.logged e (ha ▸ he)
  waits := fun objid c hw => by
    obtain ⟨o, pre, post, hwait, hobj⟩ := hwaits objid c hw
    rw [← hm] at hobj
    exact ⟨o, pre, post, hwait, hobj⟩
  rests := by
    show _ → InTurn _ (pc.said net.me s.dst)
    rw [hm]
    exact hrests

theorem Inv.died (h : s.Inv) {net : CanNet} (hhonest : Honest net) (hf : net.toFw = s.net.toFw)
    (hi : net.issued = s.net.issued) (ha : net.answers = s.net.answers) (hm : net.me = s.net.me) :
    Inv { s with net := net, pc := .died } :=
  h.socket hhonest hf hi ha hm (fun _ _ hw => nomatch hw) fun _ => .nil _

theorem Inv.fail (h : s.Inv) {net : CanNet} (hs : s.net.giveUp s.p = some net) :
    Inv { s with net := net, pc := .died } := by
  have hhonest := h.honest.giveUp hs
  unfold CanNet.giveUp at hs
  split at hs
  · cases hs
    exact h.died hhonest rfl rfl rfl rfl
  · cases hs

/-- The answer to the call was among what has been handled since. -/
theorem Inv.answered (h : s.Inv) {o : Pending} {pre post : List Serviced} (hw : s.Waiting o pre post)
    {r : CanMsg} (hr : (o.id, r) ∈ s.net.answers) : ∃ h' ∈ post,
      (o.obj.request o.call = .ok h'.request ∧ h'.own = true) ∧
        r ∈ sends (canservicesRxTask h'.fw h'.request).2 := by
  obtain ⟨h', hh', hid, hanswer⟩ := h.logged _ hr
  rw [hw.handled] at hh'
  rcases List.mem_append.mp hh' with hh' | hh'
  · exact absurd hid (hw.pre h' hh')
  · exact ⟨h', hh', hw.post h' hh' hid, hanswer⟩

theorem next_waits (pc : ShutdownPc) (r : Except Errno (List UInt8)) :
    (pc.next r).waits = none := by
  unfold ShutdownPc.next
  split
  · rfl
  · split <;> rfl
  · split <;> rfl
  · rfl

theorem next_error (pc : ShutdownPc) (e : Errno) : pc.next (.error e) = .died := by
  cases pc <;> rfl

theorem next_of_rest {pc : ShutdownPc} (h : pc.waits = none) (r : Except Errno (List UInt8)) :
    pc.next r = .died := by
  cases pc <;> first | rfl | cases h

/-- The process takes the answer to its call. -/
theorem Inv.finish (h : s.Inv) {o : Pending} {rxq rxq' : List (Nat × CanMsg)}
    (hop : s.net.procs[s.p]? = some ⟨rxq, some o⟩) (out : Outcome) (hout : out.pending = o) {net : CanNet}
    (hhonest : Honest net) (hdone : out ∈ net.done)
    (hnet : net = { s.net with procs := s.net.procs.set s.p ⟨rxq', none⟩, done := net.done }) :
    Inv { s with net := net, pc := s.pc.next out.result } := by
  have hf : net.toFw = s.net.toFw := by rw [hnet]
  have hi : net.issued = s.net.issued := by rw [hnet]
  have ha : net.answers = s.net.answers := by rw [hnet]
  have hm : net.me = s.net.me := by rw [hnet]
  cases hr : out.result with
  | error e =>
    rw [next_error]
    exact h.died hhonest hf hi ha hm
  | ok bs =>
    cases hw : s.pc.waits with
    | none =>
      rw [next_of_rest hw]
      exact h.died hhonest hf hi ha hm
    | some w =>
      obtain ⟨objid, c⟩ := w
      obtain ⟨o', pre, post, hwait, hobj, hcall⟩ := h.waits objid c hw
      obtain ⟨rxq'', hop'⟩ := hwait.op
      rw [hop] at hop'
      obtain rfl : o = o' := by
        have heq := Option.some.inj hop'
        rw [Proc.mk.injEq] at heq
        exact Option.some.inj heq.2
      obtain ⟨_, hanswer, _, hread⟩ := hhonest.done out hdone bs hr
      rw [hout] at hanswer hread
      rw [ha] at hanswer
      obtain ⟨h', hh', ⟨hreq, hown⟩, hsends⟩ := h.answered hwait hanswer
      refine h.socket hhonest hf hi ha hm (fun _ _ hw' => ?_) fun _ => ?_
      · rw [next_waits] at hw'
        cases hw'
      · have hsaid := next_said s.pc o.obj (by rw [hw, hobj, hcall]) hreq hown hsends hread
        rw [hobj] at hsaid
        rw [hwait.handled]
        rcases hsaid with hsaid | ⟨P, hsaid, hP⟩
        · rw [hsaid]
          exact hwait.said.more post
        · rw [hsaid]
          exact hwait.said.append (.one hh' hP)

theorem Inv.recv (h : s.Inv) (hs : s.recv = some t) : t.Inv := by
  obtain ⟨net, hnet, rfl⟩ := Option.map_eq_some_iff.mp hs
  replace hnet : s.net.recv s.p = some net := hnet
  have hhonest := h.honest.recv hnet
  unfold CanNet.recv at hnet
  split at hnet
  · rename_i l m rxq o hop
    split at hnet
    · cases hnet
      simp only [List.drop_left]
      exact h.finish hop ⟨o, l, m, o.call.finish m⟩ rfl hhonest
        (List.mem_append_right _ (List.mem_singleton_self _)) rfl
    · -- not for this call
      cases hnet
      simp only [List.drop_length]
      refine h.socket hhonest rfl rfl rfl rfl (fun objid c hw => ?_) h.rests
      obtain ⟨o', pre, post, hwait, hobj⟩ := h.waits objid c hw
      obtain ⟨rxq', hop'⟩ := hwait.op
      rw [hop] at hop'
      obtain rfl : o = o' := by
        have heq := Option.some.inj hop'
        rw [Proc.mk.injEq] at heq
        exact Option.some.inj heq.2
      refine ⟨o, pre, post, ⟨⟨rxq, ?_⟩, hwait.fresh, hwait.handled, hwait.said, hwait.pre, hwait.post,
        hwait.toFw⟩, hobj⟩
      exact List.getElem?_set_self (List.getElem?_eq_some_iff.mp hop).1
  · cases hnet

theorem call_cases {pc pc' : ShutdownPc} {objid : UInt8} {c : Call}
    (h : pc.call = some (objid, c, pc')) : pc.waits = none ∧ pc'.waits = some (objid, c) ∧
      (∀ me dst, pc'.said me dst = pc.said me dst) ∧ ∀ obj : Canobj, ∃ m, obj.request c = .ok m := by
  unfold ShutdownPc.call at h
  cases pc <;> simp only [reduceCtorEq, Option.some.injEq, Prod.mk.injEq] at h <;>
    obtain ⟨rfl, rfl, rfl⟩ := h <;> exact ⟨rfl, rfl, fun _ _ => rfl, fun _ => ⟨_, rfl⟩⟩

/-- The request of the next call is sent. -/
theorem Inv.calls (h : s.Inv) {objid : UInt8} {c : Call} {pc : ShutdownPc} {net : CanNet}
    (hcall : s.pc.call = some (objid, c, pc))
    (hg : Bramble.Alone s.net (.call s.p s.dst objid c))
    (hs : s.net.call s.p ⟨s.net.me, s.dst, objid⟩ c = some net) :
    Inv { s with net := net, pc := pc } := by
  obtain ⟨hrest, hwaits, hsaid, hrequest⟩ := call_cases hcall
  have hhonest := h.honest.call hg hs
  unfold CanNet.call at hs
  split at hs
  · rename_i rxq hp
    split at hs
    · rename_i m hm
      cases hs
      have hsucc : ∀ {n}, n < s.net.issued → n < s.net.issued + 1 := fun hn => Nat.lt_succ_of_lt hn
      refine ⟨hhonest, fun e he => ?_, fun h' hh' => hsucc (h.past h' hh'), h.logged,
        fun objid' c' hw => ?_, fun hw => ?_⟩
      · rcases List.mem_append.mp he with he | he
        · exact hsucc (h.ids e he)
        · rw [List.mem_singleton.mp he]
          exact Nat.lt_succ_self _
      · have hsame := hwaits.symm.trans hw
        rw [Option.some.injEq, Prod.mk.injEq] at hsame
        refine ⟨⟨s.net.issued, ⟨s.net.me, s.dst, objid⟩, c⟩, s.handled, [], ?_, ?_, hsame.2⟩
        swap
        · rw [hsame.1]
        refine ⟨⟨rxq, ?_⟩, Nat.lt_succ_self _, (List.append_nil _).symm, ?_, fun h' hh' => ?_,
          fun h' hh' => absurd hh' List.not_mem_nil, fun e he hid => ?_⟩
        · exact List.getElem?_set_self (List.getElem?_eq_some_iff.mp hp).1
        · show InTurn s.handled (pc.said s.net.me s.dst)
          rw [hsaid]
          exact h.rests hrest
        · exact Nat.ne_of_lt (h.past h' hh')
        · rcases List.mem_append.mp he with he | he
          · exact absurd hid (Nat.ne_of_lt (h.ids e he))
          · rw [List.mem_singleton.mp he]
            exact hm
      · exact absurd (hwaits.symm.trans hw) (by simp)
    · rename_i e he
      obtain ⟨m, hm⟩ := hrequest ⟨s.net.me, s.dst, objid⟩
      rw [hm] at he
      cases he
  · cases hs

/-- `shutdown_main` opens its socket, or goes on to its next call. -/
theorem Inv.main (h : s.Inv) (hg : Alone s .main) (hs : s.main = some t) : t.Inv := by
  unfold ShutdownSys.main at hs
  split at hs
  · cases hs
    exact ⟨honest_step (a := .spawn) h.honest trivial rfl, h.ids, h.past, h.logged,
      fun _ _ hw => absurd hw (by simp [ShutdownPc.waits]), fun _ => InTurn.nil _⟩
  · obtain ⟨⟨objid, c, pc⟩, hcall, hs⟩ := Option.bind_eq_some_iff.mp hs
    obtain ⟨net, hnet, rfl⟩ := Option.map_eq_some_iff.mp hs
    exact h.calls hcall (hg _ hcall) hnet

theorem Inv.step (h : s.Inv) {a : ShutdownAct} (hg : Alone s a) (hs : s.step a = some t) :
    t.Inv := by
  cases a with
  | main => exact h.main hg hs
  | recv =>
    obtain ⟨_, hs⟩ := Option.ite_none_left_eq_some.mp hs
    exact h.recv hs
  | fail =>
    obtain ⟨_, hs⟩ := Option.ite_none_left_eq_some.mp hs
    obtain ⟨net, hnet, rfl⟩ := Option.map_eq_some_iff.mp hs
    exact h.fail hnet
  | net a =>
    obtain ⟨ho, hs⟩ := Option.ite_none_right_eq_some.mp hs
    obtain ⟨net, hnet, rfl⟩ := Option.map_eq_some_iff.mp hs
    exact h.net hg ho hnet
  | power a power =>
    cases hs
    exact h.power a power

/-- The node, and the slot it asks, stay. -/
theorem step_const {a : ShutdownAct} (hs : s.step a = some t) : t.net.me = s.net.me ∧ t.dst = s.dst := by
  cases a with
  | main =>
    replace hs : s.main = some t := hs
    unfold ShutdownSys.main at hs
    split at hs
    · cases hs
      exact ⟨rfl, rfl⟩
    · obtain ⟨_, _, hs⟩ := Option.bind_eq_some_iff.mp hs
      obtain ⟨_, hnet, rfl⟩ := Option.map_eq_some_iff.mp hs
      exact ⟨CanNet.step_me hnet, rfl⟩
  | recv =>
    obtain ⟨_, hs⟩ := Option.ite_none_left_eq_some.mp hs
    obtain ⟨_, hnet, rfl⟩ := Option.map_eq_some_iff.mp hs
    exact ⟨CanNet.step_me hnet, rfl⟩
  | fail =>
    obtain ⟨_, hs⟩ := Option.ite_none_left_eq_some.mp hs
    obtain ⟨_, hnet, rfl⟩ := Option.map_eq_some_iff.mp hs
    exact ⟨CanNet.step_me hnet, rfl⟩
  | net a =>
    obtain ⟨_, hs⟩ := Option.ite_none_right_eq_some.mp hs
    obtain ⟨_, hnet, rfl⟩ := Option.map_eq_some_iff.mp hs
    exact ⟨CanNet.step_me hnet, rfl⟩
  | power a power =>
    cases hs
    exact ⟨rfl, rfl⟩

theorem Start.inv (h : s.Start) : s.Inv where
  honest := h.net.honest
  ids := fun e he => absurd (h.net.toFw ▸ he) List.not_mem_nil
  past := fun h' hh' => absurd (h.handled ▸ hh') List.not_mem_nil
  logged := fun e he => absurd (h.net.answers ▸ he) List.not_mem_nil
  waits := fun objid c hw => by
    rw [h.pc] at hw
    cases hw
  rests := fun _ => by
    rw [h.pc]
    exact .nil _

end

end ShutdownSys

/-- **`bramble shutdown` returns 0 only after the node has been shut down.**  Whatever else goes on, if
every call, of whatever process, starts only when no request for its object is in flight and none of
its answers is in flight or in the caller's socket: when `shutdown_main` has returned, the services of
the slot have handled its own write of SHUTDOWN and notified the shutdown task, have later handled a
read of SHUTDOWN of its own while the RUNNING line was low, and after that a read of POWER of its own
while RUN_PG was low. -/
theorem shutdown_in_order {s t : ShutdownSys} (h0 : s.Start)
    (h : shutdownNet.Reach ShutdownSys.Alone s t) (hpc : t.pc = .done) :
    InTurn t.handled [Notified s.net.me s.dst, Stopped s.net.me s.dst, Off s.net.me s.dst] := by
  have hinv : t.Inv := h.inv h0.inv fun _ _ _ hx hg hs => hx.step hg hs
  obtain ⟨hme, hdst⟩ := h.inv (I := fun x => x.net.me = s.net.me ∧ x.dst = s.dst) ⟨rfl, rfl⟩
    fun _ _ _ hx _ hs =>
      have hconst := ShutdownSys.step_const hs
      ⟨hconst.1.trans hx.1, hconst.2.trans hx.2⟩
  have hrest := hinv.rests (by rw [hpc]; rfl)
  rw [hpc, hme, hdst] at hrest
  exact hrest

/-- a call of `shutdown_main`, from its request to the answer -/
def wholeCall : List ShutdownAct := [.main, .net (.toFw 0), .net (.toProcs 0), .recv]

/-- the pi of the node 16, with RUNNING and RUN_PG -/
def piIs (running runPg : Bool) : ShutdownAct := .power 16 ⟨true, runPg, running, 1, 0⟩

/-- The system runs until after the first read; another process asks node 17 for its power. -/
def nodeShutDown : List ShutdownAct :=
  [.main, .net .spawn, piIs true true] ++ wholeCall ++ wholeCall ++ [piIs false true] ++ wholeCall ++
    [.net (.call 1 17 objPower (.read 8)), .net (.toFw 0), .net (.toProcs 0), piIs false false] ++
      wholeCall ++ [.recv]

/-- node 2, with the slot 0 -/
def shutdownIdle : ShutdownSys := ⟨CanNet.idle 2, .start, 0, 16, []⟩

theorem shutdown_in_order_node : ∃ t, shutdownNet.run shutdownIdle nodeShutDown = some t ∧
    t.pc = .done ∧ t.handled.length = 5 ∧
    InTurn t.handled [Notified 2 16, Stopped 2 16, Off 2 16] := by
  have hend : (shutdownNet.run shutdownIdle nodeShutDown).map (fun t =>
      (t.pc, t.handled.length)) = some (.done, 5) := by decide +kernel
  have hguard : shutdownNet.Along ShutdownSys.Alone shutdownIdle nodeShutDown := by decide +kernel
  obtain ⟨t, ht, hend⟩ := Option.map_eq_some_iff.mp hend
  rw [Prod.mk.injEq] at hend
  have h0 : shutdownIdle.Start := ⟨⟨fun _ => rfl, rfl, rfl, rfl, rfl, rfl⟩, rfl, rfl⟩
  exact ⟨t, ht, hend.1, hend.2, shutdown_in_order h0 (Machine.run_reach hguard ht) hend.1⟩

end Bramble
