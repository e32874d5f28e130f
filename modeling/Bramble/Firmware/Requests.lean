import Bramble.Firmware.ConsoleTask
import Bramble.Firmware.RxTask

/-!
# Requests that are refused, and writes without acknowledgement

* `Handled`                    a handler either refuses and changes nothing, or sends an ACK;
* `services`                   the machine: everything that can happen on one node;
* `refusals_iff`               in a run, refused requests change nothing iff no console data fits
                               into `serialtxq` in part;
* `refusals_fail`              a NAK for data of which a part has been taken;
* `wna_iff`                    a WNA does what the WO does iff the WO does nothing;
* `wna_fails`                  a shutdown that is not requested.
-/

namespace Bramble

/-! ## handlers -/

/-- A handler refuses the request and changes nothing, or it is a read or a write with an ACK. -/
def Handled (fw : Fw) (m : CanMsg) (r : Fw × List Eff) : Prop :=
  r = (fw, sendNak fw m) ∨ m.type ≠ .wna ∧ ∃ a, a.type = .ack ∧ r.2 = [.send a]

section
variable (fw : Fw) (m : CanMsg)

theorem echo_handled : Handled fw m (canservicesEcho fw m) := by
  unfold canservicesEcho
  by_cases ht : m.type ≠ .wo
  · rw [if_pos ht]
    exact .inl rfl
  · rw [if_neg ht]
    refine .inr ⟨?_, _, rfl, rfl⟩
    rw [not_not.mp ht]
    decide

theorem power_handled : Handled fw m (canservicesPower fw m) := by
  unfold canservicesPower
  cases ht : m.type with
  | wo =>
    have hne : m.type ≠ .wna := by rw [ht]; decide
    simp only
    split
    · exact .inr ⟨hne, _, rfl, rfl⟩
    · exact .inr ⟨hne, _, rfl, rfl⟩
    · exact .inl rfl
  | ro => exact .inr ⟨by rw [ht]; decide, _, rfl, rfl⟩
  | _ => exact .inl rfl

theorem shutdown_handled : Handled fw m (canservicesShutdown fw m) := by
  unfold canservicesShutdown
  cases ht : m.type with
  | wo =>
    by_cases hlen : m.dlen ≠ 0
    · simp only [if_pos hlen]
      exact .inl rfl
    · simp only [if_neg hlen]
      exact .inr ⟨by rw [ht]; decide, _, rfl, rfl⟩
  | ro => exact .inr ⟨by rw [ht]; decide, _, rfl, rfl⟩
  | _ => exact .inl rfl

theorem consoleconn_handled : Handled fw m (canservicesConsoleconn fw m) := by
  unfold canservicesConsoleconn
  by_cases ht : m.type ≠ .wo
  · rw [if_pos ht]
    exact .inl rfl
  · rw [if_neg ht]
    have hne : m.type ≠ .wna := by rw [not_not.mp ht]; decide
    split
    · exact .inr ⟨hne, _, rfl, rfl⟩
    · exact .inl rfl

theorem consoledisc_handled : Handled fw m (canservicesConsoledisc fw m) := by
  unfold canservicesConsoledisc
  by_cases ht : m.type ≠ .wo
  · rw [if_pos ht]
    exact .inl rfl
  · rw [if_neg ht]
    have hne : m.type ≠ .wna := by rw [not_not.mp ht]; decide
    split
    · split
      · exact .inl rfl
      · exact .inr ⟨hne, _, rfl, rfl⟩
    · exact .inl rfl

/-- Every request but console data is handled so. -/
theorem dispatch_handled
    (h : ¬ (m.type = .dat ∧ m.object = objConsolerecv ∧ fw.console.connected = true)) :
    Handled fw m (requestDispatch fw m) := by
  unfold requestDispatch
  split
  · exact echo_handled fw m
  · split
    · exact power_handled fw m
    · split
      · exact consoleconn_handled fw m
      · split
        · exact consoledisc_handled fw m
        · split
          · rename_i ho
            unfold canservicesConsolerecv
            by_cases ht : m.type ≠ .dat
            · rw [if_pos ht]
              exact .inl rfl
            · rw [if_neg ht, if_pos]
              · exact .inl rfl
              · exact Bool.eq_false_of_not_eq_true fun hc => h ⟨not_not.mp ht, ho, hc⟩
          · split
            · exact shutdown_handled fw m
            · exact .inl rfl

end

/-! ## refused requests -/

/-- the request is answered with a NAK, or it is a WNA and answered with nothing -/
def Refused (fw : Fw) (m : CanMsg) : Prop :=
  (∃ r ∈ sends (canservicesRxTask fw m).2, r.type = .nak) ∨
    m.type = .wna ∧ sends (canservicesRxTask fw m).2 = []

/-- what a refused request leaves as it is -/
structure Untouched (fw fw' : Fw) : Prop where
  console : fw'.console = fw.console
  task : fw'.task = fw.task
  rxEnabled : fw'.serial.rxEnabled = fw.serial.rxEnabled
  txq : fw'.serial.txq = fw.serial.txq
  power : fw'.power = fw.power

/-- console data of which a part fits into `serialtxq` -/
def FitsInPart (fw : Fw) (m : CanMsg) : Prop :=
  m.type = .dat ∧ m.object = objConsolerecv ∧ fw.console.connected = true ∧
    fw.serial.txq.length < Serial.txQueueDepth ∧
    Serial.txQueueDepth < fw.serial.txq.length + m.dlen

instance (fw : Fw) (m : CanMsg) : Decidable (FitsInPart fw m) :=
  inferInstanceAs (Decidable (_ ∧ _ ∧ _ ∧ _ ∧ _))

section
variable {fw : Fw} {m : CanMsg}

theorem Untouched.refl (fw : Fw) : Untouched fw fw := ⟨rfl, rfl, rfl, rfl, rfl⟩

theorem Handled.untouched {r : Fw × List Eff} (h : Handled fw m r)
    (href : (∃ a ∈ sends r.2, a.type = .nak) ∨ m.type = .wna ∧ sends r.2 = []) :
    Untouched fw r.1 := by
  rcases h with h | ⟨hne, a, ha, hr⟩
  · rw [h]
    exact .refl fw
  · rw [hr] at href
    rcases href with ⟨a', ha', hnak⟩ | ⟨hwna, _⟩
    · have : a' = a := List.mem_singleton.mp ha'
      rw [this, ha] at hnak
      cases hnak
    · exact absurd hwna hne

theorem consolerecv_eq (ht : m.type = .dat) (hc : fw.console.connected = true) :
    canservicesConsolerecv fw m = (let r := fw.serial.serialSend m.data.bytes
      let fw' := { fw with serial := r.1 }
      if r.2 < m.dlen then (fw', .serialSend m.data.bytes :: sendNak fw' m)
      else if m.eot then
        (fw', [.serialSend m.data.bytes,
          .send { m with
            type := .ack, dst := m.src, src := fw.srcaddr, data := .empty, eot := false, seq := 0 }])
      else (fw', [.serialSend m.data.bytes])) := by
  unfold canservicesConsolerecv
  rw [if_neg (not_not.mpr ht), if_neg (by rw [hc]; decide)]

/-- **Console data**: a NAK leaves the console as it was iff the data does not fit in part. -/
theorem consolerecv_refused (ht : m.type = .dat) (ho : m.object = objConsolerecv)
    (hc : fw.console.connected = true) :
    ((∃ r ∈ sends (canservicesConsolerecv fw m).2, r.type = .nak) →
      Untouched fw (canservicesConsolerecv fw m).1) ↔ ¬ FitsInPart fw m := by
  have hstored : (fw.serial.serialSend m.data.bytes).2 =
      min (Serial.txQueueDepth - fw.serial.txq.length) m.dlen := List.length_take
  have htxq : (fw.serial.serialSend m.data.bytes).1.txq = fw.serial.txq ++
      m.data.bytes.take (Serial.txQueueDepth - fw.serial.txq.length) := rfl
  rw [consolerecv_eq ht hc]
  by_cases hless : (fw.serial.serialSend m.data.bytes).2 < m.dlen
  · -- a NAK
    simp only [if_pos hless]
    have hnak : ∃ r ∈ sends (.serialSend m.data.bytes :: sendNak
        { fw with serial := (fw.serial.serialSend m.data.bytes).1 } m), r.type = .nak := by
      unfold sendNak
      rw [if_neg (by rw [ht]; decide)]
      exact ⟨_, List.mem_singleton_self _, rfl⟩
    constructor
    · rintro h ⟨_, _, _, hroom, hlen⟩
      have hkept := congrArg List.length ((h hnak).txq.symm.trans htxq)
      rw [List.length_append, List.length_take] at hkept
      have hdlen : m.dlen = m.data.bytes.length := rfl
      omega
    · intro hpart _
      refine ⟨rfl, rfl, rfl, ?_, rfl⟩
      have hfull : Serial.txQueueDepth - fw.serial.txq.length = 0 := by
        by_contra hroom
        exact hpart ⟨ht, ho, hc, by omega, by omega⟩
      rw [htxq, hfull, List.take_zero, List.append_nil]
  · simp only [if_neg hless]
    refine iff_of_true ?_ ?_
    · rintro ⟨r, hr, hnak⟩
      cases he : m.eot with
      | true =>
        rw [he] at hr
        rw [List.mem_singleton.mp hr] at hnak
        cases hnak
      | false =>
        rw [he] at hr
        exact absurd hr List.not_mem_nil
    · rintro ⟨_, _, _, hroom, hlen⟩
      omega

/-- **One request**: a refusal changes nothing iff it is not console data that fits in part. -/
theorem refused_iff (fw : Fw) (m : CanMsg) :
    (Refused fw m → Untouched fw (canservicesRxTask fw m).1) ↔ ¬ FitsInPart fw m := by
  have hquiet : m.type = .ack ∨ m.type = .nak ∨ m.type = .sig ∨ m.type = .unassigned →
      ((Refused fw m → Untouched fw (canservicesRxTask fw m).1) ↔ ¬ FitsInPart fw m) := by
    intro h
    refine iff_of_true (fun href => ?_) fun hpart => ?_
    · have hsends : sends (canservicesRxTask fw m).2 = [] := by
        unfold canservicesRxTask
        rcases h with h | h | h | h <;> rw [h]
        · simp only
          split <;> rfl
        all_goals rfl
      rcases href with ⟨r, hr, _⟩ | ⟨hwna, _⟩
      · rw [hsends] at hr
        exact absurd hr List.not_mem_nil
      · rw [hwna] at h
        exact absurd h (by decide)
    · rw [hpart.1] at h
      exact absurd h (by decide)
  have hreq : canservicesRxTask fw m = requestDispatch fw m →
      ((Refused fw m → Untouched fw (canservicesRxTask fw m).1) ↔ ¬ FitsInPart fw m) := by
    intro hrx
    unfold Refused
    rw [hrx]
    by_cases hdat : m.type = .dat ∧ m.object = objConsolerecv ∧ fw.console.connected = true
    · obtain ⟨ht, ho, hc⟩ := hdat
      have hdisp : requestDispatch fw m = canservicesConsolerecv fw m := by
        unfold requestDispatch
        rw [ho]
        rfl
      have hne : ¬ (m.type = .wna ∧ sends (canservicesConsolerecv fw m).2 = []) := by
        rw [ht]
        exact fun h => absurd h.1 (by decide)
      rw [hdisp, or_iff_left hne]
      exact consolerecv_refused ht ho hc
    · refine iff_of_true (dispatch_handled fw m hdat).untouched fun hpart => hdat ?_
      exact ⟨hpart.1, hpart.2.1, hpart.2.2.1⟩
  cases ht : m.type with
  | ack => exact hquiet (.inl ht)
  | nak => exact hquiet (.inr (.inl ht))
  | sig => exact hquiet (.inr (.inr (.inl ht)))
  | unassigned => exact hquiet (.inr (.inr (.inr ht)))
  | _ =>
    apply hreq
    unfold canservicesRxTask
    rw [ht]

end

/-! ## runs of the services -/

inductive ServiceAct where
  | node (a : NodeAct)
  /-- what the power task, the shutdown task and the pi do to the power -/
  | power (p : Power)
  deriving DecidableEq

def Fw.serviceStep (fw : Fw) : ServiceAct → Option Fw
  | .node (.uart c) => some { fw with serial := fw.serial.usart1IsrRx c }
  | .node .usartTx => some { fw with serial := fw.serial.usart1IsrTx.1 }
  | .node (.can m) => some (canservicesRxTask fw m).1
  | .node (.task ev) => (consoleTask fw ev).map fun r => r.1
  | .power p => some { fw with power := p }

def services : Machine Fw ServiceAct := ⟨Fw.serviceStep⟩

/-- a request that is refused changes nothing -/
def RefusesCleanly (fw : Fw) : ServiceAct → Prop
  | .node (.can m) => Refused fw m → Untouched fw (canservicesRxTask fw m).1
  | _ => True

/-- no console data fits into `serialtxq` in part -/
def NoPart (fw : Fw) : ServiceAct → Prop
  | .node (.can m) => ¬ FitsInPart fw m
  | _ => True

instance (fw : Fw) : ∀ a, Decidable (NoPart fw a)
  | .node (.can m) => inferInstanceAs (Decidable (¬ FitsInPart fw m))
  | .node (.uart _) | .node .usartTx | .node (.task _) | .power _ => inferInstanceAs (Decidable True)

theorem refusesCleanly_iff (fw : Fw) (a : ServiceAct) : RefusesCleanly fw a ↔ NoPart fw a := by
  cases a with
  | power p => exact Iff.rfl
  | node a =>
    cases a with
    | can m => exact refused_iff fw m
    | _ => exact Iff.rfl

theorem along_refusesCleanly_iff (fw : Fw) (as : List ServiceAct) :
    services.Along RefusesCleanly fw as ↔ services.Along NoPart fw as :=
  Machine.Along.iff_of_inv (I := fun _ => True) (fun _ _ _ _ _ => trivial)
    (fun fw a _ => refusesCleanly_iff fw a) trivial as

/-- **In a run of the services, every refused request changes nothing iff no console data fits into
the transmit buffer in part.** -/
theorem refusals_iff (a : Addr) (as : List ServiceAct) :
    services.Along RefusesCleanly (Fw.init a) as ↔ services.Along NoPart (Fw.init a) as :=
  along_refusesCleanly_iff (Fw.init a) as

/-- data for the console -/
def recvDat (n : Nat) (h : n ≤ 8) : ServiceAct :=
  .node (.can { CanMsg.zero with
    type := .dat, object := objConsolerecv, data := ⟨List.replicate n 97, by simpa using h⟩ })

/-- 15 messages of 8 bytes and one of 1 byte leave room for 7 bytes -/
def fillTxq : List ServiceAct :=
  .node (.can { CanMsg.zero with
      type := .wo, object := objConsoleconn, data := .single objConsolesend }) ::
    List.replicate 15 (recvDat 8 (by decide)) ++
    [recvDat 1 (by decide), recvDat 8 (by decide)]

/-- **Data answered with a NAK is on the console in part.** -/
theorem refusals_fail :
    ¬ ∀ (a : Addr) (as : List ServiceAct), services.Along RefusesCleanly (Fw.init a) as := by
  intro hall
  have h := hall 16 fillTxq
  rw [along_refusesCleanly_iff] at h
  revert h
  decide +kernel

/-! ## writes without acknowledgement -/

/-- A WO with the source, object and payload of `m` changes nothing. -/
structure Ineffective (fw : Fw) (m : CanMsg) : Prop where
  /-- the power is as the write wants it -/
  power : m.object = objPower → ∀ val : Bool, m.data.bytes = [if val then 1 else 0] →
    fw.power.globalEn = val ∧ fw.power.runPg = val ∧ fw.power.dr1 = if val then 1 else 0
  /-- every well-formed shutdown is one more notification -/
  shutdown : m.object = objShutdown → m.dlen ≠ 0
  /-- the connection exists -/
  conn : m.object = objConsoleconn → ∀ o, m.data.bytes = [o] →
    fw.console = ⟨m.src, o, true⟩ ∧ fw.serial.rxEnabled = true ∧ fw.task.suspended = false
  /-- the connection does not exist -/
  disc : m.object = objConsoledisc → ∀ o, m.data.bytes = [o] →
    ¬ (fw.console.connected = true ∧ fw.console.dstaddr = m.src ∧ fw.console.object = o)

section
variable {fw : Fw} {m : CanMsg}

theorem power_wo (ht : m.type = .wo) : (canservicesPower fw m).1 = fw ↔
    ∀ val : Bool, m.data.bytes = [if val then 1 else 0] →
      fw.power.globalEn = val ∧ fw.power.runPg = val ∧ fw.power.dr1 = if val then 1 else 0 := by
  have hset : ∀ val, { fw with power := powerSetState fw.power val } = fw ↔
      fw.power.globalEn = val ∧ fw.power.runPg = val ∧ fw.power.dr1 = if val then 1 else 0 := by
    intro val
    constructor
    · intro h
      have hp : powerSetState fw.power val = fw.power := congrArg Fw.power h
      exact ⟨(congrArg Power.globalEn hp).symm, (congrArg Power.runPg hp).symm,
        (congrArg Power.dr1 hp).symm⟩
    · rintro ⟨h1, h2, h3⟩
      have hp : powerSetState fw.power val = { fw.power with
          globalEn := fw.power.globalEn, runPg := fw.power.runPg, dr1 := fw.power.dr1 } := by
        rw [h1, h2, h3]
        rfl
      rw [hp]
  unfold canservicesPower
  rw [ht]
  simp only
  split
  · rename_i hb
    rw [hset false, hb]
    constructor
    · intro h val hval
      cases val with
      | false => exact h
      | true => exact absurd hval (by decide)
    · exact fun h => h false rfl
  · rename_i hb
    rw [hset true, hb]
    constructor
    · intro h val hval
      cases val with
      | true => exact h
      | false => exact absurd hval (by decide)
    · exact fun h => h true rfl
  · rename_i h0 h1
    refine iff_of_true rfl fun val hval => ?_
    cases val with
    | false => exact absurd hval h0
    | true => exact absurd hval h1

theorem shutdown_wo (ht : m.type = .wo) : (canservicesShutdown fw m).1 = fw ↔ m.dlen ≠ 0 := by
  unfold canservicesShutdown
  rw [ht]
  simp only
  by_cases hlen : m.dlen ≠ 0
  · rw [if_pos hlen]
    exact iff_of_true rfl hlen
  · rw [if_neg hlen]
    refine iff_of_false (fun h => ?_) hlen
    have hcount : fw.power.shutdown + 1 = fw.power.shutdown := congrArg (fun f => f.power.shutdown) h
    omega

theorem consoleconn_wo (ht : m.type = .wo) : (canservicesConsoleconn fw m).1 = fw ↔
    ∀ o, m.data.bytes = [o] →
      fw.console = ⟨m.src, o, true⟩ ∧ fw.serial.rxEnabled = true ∧ fw.task.suspended = false := by
  unfold canservicesConsoleconn
  rw [if_neg (not_not.mpr ht)]
  split
  · rename_i o hb
    rw [hb]
    constructor
    · intro h o' ho
      cases ho
      exact ⟨(congrArg Fw.console h).symm, (congrArg (fun f => f.serial.rxEnabled) h).symm,
        (congrArg (fun f => f.task.suspended) h).symm⟩
    · intro h
      obtain ⟨h1, h2, h3⟩ := h o rfl
      show { fw with
        serial := { fw.serial with rxEnabled := true }
        console := _, task := { fw.task with suspended := false } } = fw
      rw [← h1, ← h2, ← h3]
  · rename_i hb
    exact iff_of_true rfl fun o ho => absurd ho (hb o)

theorem consoledisc_wo (ht : m.type = .wo) : (canservicesConsoledisc fw m).1 = fw ↔
    ∀ o, m.data.bytes = [o] →
      ¬ (fw.console.connected = true ∧ fw.console.dstaddr = m.src ∧ fw.console.object = o) := by
  unfold canservicesConsoledisc
  rw [if_neg (not_not.mpr ht)]
  split
  · rename_i o hb
    rw [hb]
    by_cases hno : fw.console.connected = false ∨ fw.console.dstaddr ≠ m.src ∨ fw.console.object ≠ o
    · rw [if_pos hno]
      refine iff_of_true rfl fun o' ho hyes => ?_
      cases ho
      rcases hno with h | h | h
      · rw [hyes.1] at h
        cases h
      · exact h hyes.2.1
      · exact h hyes.2.2
    · rw [if_neg hno]
      rw [not_or, not_or, Bool.not_eq_false, not_not, not_not] at hno
      refine iff_of_false (fun h => ?_) fun h => h o rfl hno
      have hconn : false = fw.console.connected := congrArg (fun f => f.console.connected) h
      rw [hno.1] at hconn
      cases hconn
  · rename_i hb
    exact iff_of_true rfl fun o ho => absurd ho (hb o)

/-- **What a WO leaves as it is** -/
theorem wo_iff (ht : m.type = .wo) : (canservicesRxTask fw m).1 = fw ↔ Ineffective fw m := by
  have hrx : canservicesRxTask fw m = requestDispatch fw m := by
    unfold canservicesRxTask
    rw [ht]
  have hother : ∀ {o : UInt8}, m.object = o → o ≠ objPower → o ≠ objShutdown →
      o ≠ objConsoleconn → o ≠ objConsoledisc → Ineffective fw m := by
    rintro o rfl hp hs hc hd
    exact ⟨fun h => absurd h hp, fun h => absurd h hs, fun h => absurd h hc, fun h => absurd h hd⟩
  rw [hrx]
  unfold requestDispatch
  split
  · rename_i ho
    have hecho : (canservicesEcho fw m).1 = fw := by
      unfold canservicesEcho
      split <;> rfl
    exact iff_of_true hecho (hother ho (by decide) (by decide) (by decide) (by decide))
  · split
    · rename_i ho
      rw [power_wo ht]
      exact ⟨fun h => ⟨fun _ => h, fun h' => absurd (ho.symm.trans h') (by decide),
        fun h' => absurd (ho.symm.trans h') (by decide),
        fun h' => absurd (ho.symm.trans h') (by decide)⟩, fun h => h.power ho⟩
    · rename_i hp
      split
      · rename_i ho
        rw [consoleconn_wo ht]
        exact ⟨fun h => ⟨fun h' => absurd h' hp, fun h' => absurd (ho.symm.trans h') (by decide),
          fun _ => h, fun h' => absurd (ho.symm.trans h') (by decide)⟩, fun h => h.conn ho⟩
      · rename_i hc
        split
        · rename_i ho
          rw [consoledisc_wo ht]
          exact ⟨fun h => ⟨fun h' => absurd h' hp, fun h' => absurd (ho.symm.trans h') (by decide),
            fun h' => absurd h' hc, fun _ => h⟩, fun h => h.disc ho⟩
        · rename_i hd
          split
          · rename_i ho
            have hrecv : (canservicesConsolerecv fw m).1 = fw := by
              unfold canservicesConsolerecv
              rw [if_pos (by rw [ht]; decide)]
            exact iff_of_true hrecv (hother ho (by decide) (by decide) (by decide) (by decide))
          · split
            · rename_i ho
              rw [shutdown_wo ht]
              exact ⟨fun h => ⟨fun h' => absurd h' hp, fun _ => h, fun h' => absurd h' hc,
                fun h' => absurd h' hd⟩, fun h => h.shutdown ho⟩
            · rename_i hs
              exact iff_of_true rfl (hother rfl hp hs hc hd)

/-- a WNA is refused in silence -/
theorem wna_ignored (ht : m.type = .wna) : canservicesRxTask fw m = (fw, []) := by
  have hrx : canservicesRxTask fw m = requestDispatch fw m := by
    unfold canservicesRxTask
    rw [ht]
  rw [hrx]
  rcases dispatch_handled fw m fun h => absurd (ht.symm.trans h.1) (by decide) with h | ⟨h, _⟩
  · rw [h, sendNak, if_pos ht]
  · exact absurd ht h

end

/-- **A WNA does what the WO with its source, object and payload does, and sends nothing, iff the WO
changes nothing.** -/
theorem wna_iff (fw : Fw) (m w : CanMsg) (hm : m.type = .wna) (hw : w.type = .wo)
    (hsrc : w.src = m.src) (hobj : w.object = m.object) (hdata : w.data = m.data) :
    ((canservicesRxTask fw m).1 = (canservicesRxTask fw w).1 ∧
      sends (canservicesRxTask fw m).2 = []) ↔ Ineffective fw m := by
  have hsame : Ineffective fw w ↔ Ineffective fw m := by
    have hdlen : w.dlen = m.dlen := congrArg (fun d => d.bytes.length) hdata
    constructor
    · rintro ⟨h1, h2, h3, h4⟩
      rw [hobj, hdata] at h1
      rw [hobj, hdlen] at h2
      rw [hobj, hdata, hsrc] at h3 h4
      exact ⟨h1, h2, h3, h4⟩
    · rintro ⟨h1, h2, h3, h4⟩
      rw [← hobj, ← hdata] at h1
      rw [← hobj, ← hdlen] at h2
      rw [← hobj, ← hdata, ← hsrc] at h3 h4
      exact ⟨h1, h2, h3, h4⟩
  rw [wna_ignored hm, ← hsame, ← wo_iff hw]
  exact ⟨fun h => h.1.symm, fun h => ⟨h.symm, rfl⟩⟩

/-- a write of the type `t` to the object that requests a shutdown, or with a byte too many -/
def shutdownMsg (t : MsgType) (data : Payload) : CanMsg :=
  { CanMsg.zero with src := 2, dst := 16, type := t, object := objShutdown, data := data }

theorem wna_long_shutdown : ((canservicesRxTask (Fw.init 16) (shutdownMsg .wna (.single 1))).1 =
      (canservicesRxTask (Fw.init 16) (shutdownMsg .wo (.single 1))).1 ∧
    sends (canservicesRxTask (Fw.init 16) (shutdownMsg .wna (.single 1))).2 = []) ↔
      Ineffective (Fw.init 16) (shutdownMsg .wna (.single 1)) :=
  wna_iff (Fw.init 16) (shutdownMsg .wna (.single 1)) (shutdownMsg .wo (.single 1)) rfl rfl rfl rfl
    rfl

/-- **A shutdown written without acknowledgement is not requested.** -/
theorem wna_fails : ¬ ∀ (fw : Fw) (m w : CanMsg), m.type = .wna → w.type = .wo → w.src = m.src →
    w.object = m.object → w.data = m.data →
      (canservicesRxTask fw m).1 = (canservicesRxTask fw w).1 ∧
        sends (canservicesRxTask fw m).2 = [] := by
  intro hall
  have h := hall (Fw.init 16) (shutdownMsg .wna .empty) (shutdownMsg .wo .empty) rfl rfl rfl rfl rfl
  exact absurd h.1 (by decide)

end Bramble
