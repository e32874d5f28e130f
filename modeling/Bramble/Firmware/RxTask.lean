import Bramble.Firmware.Services

/-!
# What the rx task does with one message

* `RxStep`                  the five things that can happen, each with the condition on the message
                            and the connection under which it does;
* `canservicesRxTask_step`  nothing else happens.

The proofs about the console look at `RxStep` and never at the handlers.
-/

namespace Bramble

/-- a CONSOLECONN, which is accepted in every state -/
def CanMsg.isConn (m : CanMsg) : Prop :=
  m.type = .wo ∧ m.object = objConsoleconn ∧ m.dlen = 1

instance (m : CanMsg) : Decidable m.isConn :=
  inferInstanceAs (Decidable (_ ∧ _ ∧ _))

/-- a CONSOLEDISC that `fw` accepts -/
def Fw.acceptsDisc (fw : Fw) (m : CanMsg) : Prop :=
  m.type = .wo ∧ m.object = objConsoledisc ∧ m.data.bytes = [fw.console.object] ∧
    fw.console.connected = true ∧ fw.console.dstaddr = m.src

instance (fw : Fw) (m : CanMsg) : Decidable (fw.acceptsDisc m) :=
  inferInstanceAs (Decidable (_ ∧ _ ∧ _ ∧ _ ∧ _))

def Fw.connected (fw : Fw) (peer : Addr) (o : UInt8) : Fw :=
  { fw with
    serial := { fw.serial with rxEnabled := true }
    console := ⟨peer, o, true⟩
    task := { fw.task with suspended := false } }

def Fw.disconnected (fw : Fw) : Fw :=
  { fw with
    serial := { fw.serial with rxEnabled := false }
    console := { fw.console with connected := false }
    task := { fw.task with suspended := true } }

/-- effects that only send ACKs or NAKs to the source of `m`, for its object -/
def Replies (fw : Fw) (m : CanMsg) (es : List Eff) : Prop :=
  ∀ e ∈ es, ∃ r, e = .send r ∧ (r.type = .ack ∨ r.type = .nak) ∧ r.dst = m.src ∧
    r.src = fw.srcaddr ∧ r.object = m.object

/-- Everything `canservices_rx_task` can do with one message. -/
inductive RxStep (fw : Fw) (m : CanMsg) : Fw → List Eff → Prop
  | conn (o : UInt8) (es : List Eff) (hc : m.isConn) (hb : m.data.bytes = [o])
      (he : Replies fw m es) : RxStep fw m (fw.connected m.src o) es
  | disc (es : List Eff) (hd : fw.acceptsDisc m) (he : Replies fw m es) :
      RxStep fw m fw.disconnected es
  | recv (es : List Eff) (ht : m.type = .dat) (ho : m.object = objConsolerecv)
      (hc : fw.console.connected = true) (he : Replies fw m es) :
      RxStep fw m { fw with serial := (fw.serial.serialSend m.data.bytes).1 }
        (.serialSend m.data.bytes :: es)
  | give (ht : m.type = .ack) (hc : fw.console.connected = true)
      (ho : m.object = fw.console.object) : RxStep fw m fw.notifyGive [.notifyGive]
  | other (power : Power) (es : List Eff) (he : Replies fw m es) (hc : ¬ m.isConn)
      (hd : ¬ fw.acceptsDisc m)
      (hr : ¬ (m.type = .dat ∧ m.object = objConsolerecv ∧ fw.console.connected = true))
      (ha : ¬ (m.type = .ack ∧ m.object = fw.console.object ∧ fw.console.connected = true)) :
      RxStep fw m { fw with power := power } es

theorem Replies.nil (fw : Fw) (m : CanMsg) : Replies fw m [] := fun _ he =>
  absurd he List.not_mem_nil

theorem Replies.ack {fw : Fw} {m r : CanMsg} (ht : r.type = .ack) (hd : r.dst = m.src)
    (hs : r.src = fw.srcaddr) (ho : r.object = m.object) : Replies fw m [.send r] := by
  intro e he
  exact ⟨r, List.mem_singleton.mp he, .inl ht, hd, hs, ho⟩

theorem Replies.nak {fw fw' : Fw} (m : CanMsg) (h : fw'.srcaddr = fw.srcaddr) :
    Replies fw m (sendNak fw' m) := by
  unfold sendNak
  split
  · exact .nil fw m
  · intro e he
    exact ⟨_, List.mem_singleton.mp he, .inr rfl, rfl, h, rfl⟩

section
variable (fw : Fw) (m : CanMsg)

theorem consoleconn_step (ho : m.object = objConsoleconn) (ha : m.type ≠ .ack) :
    RxStep fw m (canservicesConsoleconn fw m).1 (canservicesConsoleconn fw m).2 := by
  have hdisc : ¬ fw.acceptsDisc m := fun h => absurd (ho.symm.trans h.2.1) (by decide)
  have hrecv : ¬ (m.type = .dat ∧ m.object = objConsolerecv ∧ fw.console.connected = true) :=
    fun h => absurd (ho.symm.trans h.2.1) (by decide)
  have hother : ¬ m.isConn → RxStep fw m fw (sendNak fw m) := fun hc =>
    .other fw.power _ (.nak m rfl) hc hdisc hrecv (fun h => ha h.1)
  unfold canservicesConsoleconn
  split
  · rename_i ht
    exact hother fun h => ht h.1
  · rename_i ht
    split
    · rename_i o hb
      exact .conn o _ ⟨not_not.mp ht, ho, by rw [CanMsg.dlen, hb]; rfl⟩ hb (.ack rfl rfl rfl rfl)
    · rename_i hb
      refine hother fun h => ?_
      obtain ⟨o, ho⟩ := List.length_eq_one_iff.mp h.2.2
      exact hb o ho

theorem consoledisc_step (ho : m.object = objConsoledisc) (ha : m.type ≠ .ack) :
    RxStep fw m (canservicesConsoledisc fw m).1 (canservicesConsoledisc fw m).2 := by
  have hconn : ¬ m.isConn := fun h => absurd (ho.symm.trans h.2.1) (by decide)
  have hrecv : ¬ (m.type = .dat ∧ m.object = objConsolerecv ∧ fw.console.connected = true) :=
    fun h => absurd (ho.symm.trans h.2.1) (by decide)
  have hother : ¬ fw.acceptsDisc m → RxStep fw m fw (sendNak fw m) := fun hd =>
    .other fw.power _ (.nak m rfl) hconn hd hrecv (fun h => ha h.1)
  unfold canservicesConsoledisc
  split
  · rename_i ht
    exact hother fun h => ht h.1
  · rename_i ht
    split
    · rename_i o hb
      split
      · rename_i hno
        refine hother fun h => ?_
        rcases hno with h1 | h1 | h1
        · rw [h.2.2.2.1] at h1
          cases h1
        · exact h1 h.2.2.2.2
        · have := h.2.2.1
          rw [hb, List.cons.injEq] at this
          exact h1 this.1.symm
      · rename_i hyes
        rw [not_or, not_or, not_not, not_not] at hyes
        obtain ⟨h1, h2, h3⟩ := hyes
        exact .disc _ ⟨not_not.mp ht, ho, by rw [hb, h3], by simpa using h1, h2⟩ (.ack rfl rfl rfl rfl)
    · rename_i hb
      exact hother fun h => hb _ h.2.2.1

theorem consolerecv_step (ho : m.object = objConsolerecv) (ha : m.type ≠ .ack) :
    RxStep fw m (canservicesConsolerecv fw m).1 (canservicesConsolerecv fw m).2 := by
  have hconn : ¬ m.isConn := fun h => absurd (ho.symm.trans h.2.1) (by decide)
  have hdisc : ¬ fw.acceptsDisc m := fun h => absurd (ho.symm.trans h.2.1) (by decide)
  have hother : ¬ (m.type = .dat ∧ m.object = objConsolerecv ∧ fw.console.connected = true) →
      RxStep fw m fw (sendNak fw m) := fun hr =>
    .other fw.power _ (.nak m rfl) hconn hdisc hr (fun h => ha h.1)
  unfold canservicesConsolerecv
  split
  · rename_i ht
    exact hother fun h => ht h.1
  · rename_i ht
    split
    · rename_i hc
      exact hother fun h => by
        rw [h.2.2] at hc
        cases hc
    · rename_i hc
      have hc' : fw.console.connected = true := by simpa using hc
      simp only
      split
      · exact .recv _ (not_not.mp ht) ho hc' (.nak m rfl)
      · split
        · exact .recv _ (not_not.mp ht) ho hc' (.ack rfl rfl rfl rfl)
        · exact .recv _ (not_not.mp ht) ho hc' (.nil fw m)

theorem quiet_step {fw : Fw} {m : CanMsg} {r : Fw × List Eff} (h1 : ∃ p, r.1 = { fw with power := p })
    (h2 : Replies fw m r.2) (hc : m.object ≠ objConsoleconn) (hd : m.object ≠ objConsoledisc)
    (hr : m.object ≠ objConsolerecv) (ha : m.type ≠ .ack) : RxStep fw m r.1 r.2 := by
  obtain ⟨p, hp⟩ := h1
  rw [hp]
  exact .other p _ h2 (fun h => hc h.2.1) (fun h => hd h.2.1) (fun h => hr h.2.1) (fun h => ha h.1)

theorem echo_quiet : (∃ p, (canservicesEcho fw m).1 = { fw with power := p }) ∧
    Replies fw m (canservicesEcho fw m).2 := by
  unfold canservicesEcho
  split
  · exact ⟨⟨fw.power, rfl⟩, Replies.nak m rfl⟩
  · exact ⟨⟨fw.power, rfl⟩, .ack rfl rfl rfl rfl⟩

theorem power_quiet : (∃ p, (canservicesPower fw m).1 = { fw with power := p }) ∧
    Replies fw m (canservicesPower fw m).2 := by
  unfold canservicesPower
  split
  · split
    · exact ⟨⟨_, rfl⟩, .ack rfl rfl rfl rfl⟩
    · exact ⟨⟨_, rfl⟩, .ack rfl rfl rfl rfl⟩
    · exact ⟨⟨fw.power, rfl⟩, Replies.nak m rfl⟩
  · exact ⟨⟨fw.power, rfl⟩, .ack rfl rfl rfl rfl⟩
  · exact ⟨⟨fw.power, rfl⟩, Replies.nak m rfl⟩

theorem shutdown_quiet : (∃ p, (canservicesShutdown fw m).1 = { fw with power := p }) ∧
    Replies fw m (canservicesShutdown fw m).2 := by
  unfold canservicesShutdown
  split
  · split
    · exact ⟨⟨fw.power, rfl⟩, Replies.nak m rfl⟩
    · exact ⟨⟨_, rfl⟩, .ack rfl rfl rfl rfl⟩
  · exact ⟨⟨fw.power, rfl⟩, .ack rfl rfl rfl rfl⟩
  · exact ⟨⟨fw.power, rfl⟩, Replies.nak m rfl⟩

theorem dispatch_step (ha : m.type ≠ .ack) :
    RxStep fw m (requestDispatch fw m).1 (requestDispatch fw m).2 := by
  have hquiet : ∀ r : Fw × List Eff, (∃ p, r.1 = { fw with power := p }) ∧ Replies fw m r.2 →
      m.object ≠ objConsoleconn → m.object ≠ objConsoledisc → m.object ≠ objConsolerecv →
      RxStep fw m r.1 r.2 := fun r h hc hd hr => quiet_step h.1 h.2 hc hd hr ha
  unfold requestDispatch
  split
  · rename_i ho
    exact hquiet _ (echo_quiet fw m) (by rw [ho]; decide) (by rw [ho]; decide) (by rw [ho]; decide)
  · split
    · rename_i ho
      exact hquiet _ (power_quiet fw m) (by rw [ho]; decide) (by rw [ho]; decide)
        (by rw [ho]; decide)
    · split
      · rename_i ho
        exact consoleconn_step fw m ho ha
      · rename_i hc
        split
        · rename_i ho
          exact consoledisc_step fw m ho ha
        · rename_i hd
          split
          · rename_i ho
            exact consolerecv_step fw m ho ha
          · rename_i hr
            split
            · exact hquiet _ (shutdown_quiet fw m) hc hd hr
            · exact hquiet (fw, _) ⟨⟨fw.power, rfl⟩, Replies.nak m rfl⟩ hc hd hr

/-- **The rx task does nothing else.** -/
theorem canservicesRxTask_step :
    RxStep fw m (canservicesRxTask fw m).1 (canservicesRxTask fw m).2 := by
  have hother : m.type = .nak ∨ m.type = .sig ∨ m.type = .unassigned → RxStep fw m fw [] := by
    intro h
    have hne : ∀ t, m.type = t → t = .wo ∨ t = .dat ∨ t = .ack → False := by
      intro t ht h'
      rw [ht] at h
      rcases h' with rfl | rfl | rfl <;> simp at h
    exact .other fw.power [] (.nil fw m) (fun h' => hne _ h'.1 (.inl rfl)) (fun h' => hne _ h'.1 (.inl rfl))
      (fun h' => hne _ h'.1 (.inr (.inl rfl))) (fun h' => hne _ h'.1 (.inr (.inr rfl)))
  have hreq : m.type ≠ .ack → RxStep fw m (requestDispatch fw m).1 (requestDispatch fw m).2 :=
    dispatch_step fw m
  unfold canservicesRxTask
  cases ht : m.type with
  | ro => exact hreq (by simp [ht])
  | wo => exact hreq (by simp [ht])
  | wna => exact hreq (by simp [ht])
  | dat => exact hreq (by simp [ht])
  | nak => exact hother (.inl ht)
  | sig => exact hother (.inr (.inl ht))
  | unassigned => exact hother (.inr (.inr ht))
  | ack =>
    simp only
    split
    · rename_i h
      exact .give ht h.1 h.2
    · rename_i h
      exact .other fw.power [] (.nil fw m) (fun h' => absurd (ht.symm.trans h'.1) (by decide))
        (fun h' => absurd (ht.symm.trans h'.1) (by decide))
        (fun h' => absurd (ht.symm.trans h'.1) (by decide)) (fun h' => h ⟨h'.2.2, h'.2.1⟩)

end

section
variable {fw fw' : Fw} {m : CanMsg} {es : List Eff}

theorem RxStep.pc (h : RxStep fw m fw' es) :
    fw'.task.pc = fw.task.pc ∧ fw'.task.seq = fw.task.seq ∧ fw'.srcaddr = fw.srcaddr := by
  cases h <;> exact ⟨rfl, rfl, rfl⟩

theorem RxStep.conn_eq (h : RxStep fw m fw' es) (hc : m.isConn) :
    ∃ o, fw' = fw.connected m.src o := by
  cases h with
  | conn o es _ _ _ => exact ⟨o, rfl⟩
  | disc es hd _ => exact absurd (hc.2.1.symm.trans hd.2.1) (by decide)
  | recv es ht _ _ _ => exact absurd (hc.1.symm.trans ht) (by decide)
  | give ht _ _ => exact absurd (hc.1.symm.trans ht) (by decide)
  | other power es _ hc' _ _ _ => exact absurd hc hc'

theorem RxStep.dstaddr (h : RxStep fw m fw' es) (hc : ¬ m.isConn) :
    fw'.console.dstaddr = fw.console.dstaddr := by
  cases h with
  | conn o es hc' _ _ => exact absurd hc' hc
  | _ => rfl

theorem RxStep.notify (h : RxStep fw m fw' es) (ha : m.type ≠ .ack) :
    fw'.task.notify = fw.task.notify := by
  cases h with
  | give ht => exact absurd ht ha
  | _ => rfl

end

end Bramble
