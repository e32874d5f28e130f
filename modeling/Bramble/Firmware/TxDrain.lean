import Bramble.Firmware.Canbus
import Bramble.Lib.Progress

/-!
# The transmit queue runs empty (`canbus.c`)

Without new messages the flushes, the transmit interrupt and the hardware come to rest, and then every
message that `canbus_send` accepted has been given to the hardware, or was refused by it.  The
interrupt is pending only while a mailbox has completed its request, and so is free.

* `TxQueue.Draining`   the moves that are left;
* `TxQueue.work`       the rank: they lower it;
* `canbus_drains`     it is not more than the number of moves, and the end is reached.
-/

namespace Bramble

/-- what a task has still to do in its flush -/
def FlushPc.work : FlushPc → Nat
  | .idle => 0
  | .irq => 6
  | .last => 7
  | .receive => 8
  | .test => 9
  | .transmit _ => 11

/-- The same for the interrupt, that begins with a mailbox free: it takes a message, or finds none
and disables itself. -/
def FlushPc.isrWork (full empty : Bool) : FlushPc → Nat
  | .idle => 5
  | .test => if full then 7 else 4
  | .receive => 3
  | .last => if empty then 2 else 6
  | .irq => 1
  | .transmit _ => 9

namespace TxQueue

/-- no new messages; the interrupt with a mailbox free -/
def Draining (s : Canbus) : CanbusAct → Prop
  | .send _ _ => False
  | .irq => s.canAvailableMailbox = true
  | .run _ | .sent _ => True

instance (s : Canbus) : ∀ a, Decidable (Draining s a)
  | .send _ _ => inferInstanceAs (Decidable False)
  | .irq => inferInstanceAs (Decidable (_ = _))
  | .run _ | .sent _ => inferInstanceAs (Decidable True)

/-- for the messages and the interrupt that will come -/
def load (s : Canbus) : Nat := 7 * s.cantxq.length + s.boxes.length + if s.tmeie then 5 else 0

def tasksWork (s : Canbus) : Nat := (s.pc .canrx).work + (s.pc .cancon).work

def isrWork (s : Canbus) (pc : FlushPc) : Nat :=
  pc.isrWork (!s.canAvailableMailbox) s.cantxq.isEmpty

def work (s : Canbus) : Nat := s.load + s.tasksWork + s.isrWork (s.pc .isr)

/-- Nobody has anything to do, and nothing waits. -/
structure Drained (s : Canbus) : Prop where
  cantxq : s.cantxq = []
  boxes : s.boxes = []
  tmeie : s.tmeie = false
  pc : ∀ k, s.pc k = .idle

/-- the interrupt runs with `CAN_IER_TMEIE` -/
def Armed (s : Canbus) : Prop := s.pc .isr ≠ .idle → s.tmeie = true

section
variable {s t u : Canbus} {k : Flusher}

theorem tasksWork_goto (hu : u.pc = s.pc) (pc : FlushPc) (hk : k ≠ .isr) :
    (u.goto k pc).tasksWork + (s.pc k).work = s.tasksWork + pc.work := by
  unfold tasksWork
  rw [← hu]
  cases k with
  | canrx =>
    rw [goto_pc_self, goto_pc_of_ne u pc (by decide)]
    omega
  | cancon =>
    rw [goto_pc_self, goto_pc_of_ne u pc (by decide)]
    omega
  | isr => exact absurd rfl hk

theorem tasksWork_isr (hu : u.pc = s.pc) (pc : FlushPc) :
    (u.goto .isr pc).tasksWork = s.tasksWork := by
  unfold tasksWork
  rw [goto_pc_of_ne u pc (by decide), goto_pc_of_ne u pc (by decide), hu]

/-- A step of a task: the interrupt is at rest. -/
theorem work_task (hu : u.pc = s.pc) {pc : FlushPc} (hk : k ≠ .isr) (hi : s.pc .isr = .idle)
    (hless : u.load + pc.work < s.load + (s.pc k).work) : (u.goto k pc).work < s.work := by
  have htasks := tasksWork_goto hu pc hk
  have hload : (u.goto k pc).load = u.load := rfl
  unfold work
  rw [goto_pc_of_ne u pc hk.symm, hu, hi, hload]
  unfold isrWork
  simp only [FlushPc.isrWork]
  omega

/-- A step of the interrupt. -/
theorem work_isr (hu : u.pc = s.pc) {pc : FlushPc}
    (hless : u.load + u.isrWork pc < s.load + s.isrWork (s.pc .isr)) :
    (u.goto .isr pc).work < s.work := by
  have hload : (u.goto .isr pc).load = u.load := rfl
  have hisr : (u.goto .isr pc).isrWork pc = u.isrWork pc := rfl
  unfold work
  rw [goto_pc_self, tasksWork_isr hu, hload, hisr]
  omega

theorem load_transmit (s : Canbus) (e : Entry) : (s.canTransmit e).load ≤ s.load + 1 := by
  unfold canTransmit
  split
  · unfold load
    simp only [List.length_append, List.length_singleton]
    omega
  · exact Nat.le_succ _

theorem load_dequeue {e : Entry} {q : List Entry} (hq : s.cantxq = e :: q) :
    TxQueue.load { s with cantxq := q } + 7 = s.load := by
  unfold load
  rw [hq, List.length_cons]
  simp only
  omega

theorem load_irq (s : Canbus) (on : Bool) :
    TxQueue.load { s with tmeie := on } + (if s.tmeie then 5 else 0) = s.load + if on then 5 else 0 := by
  unfold load
  simp only
  omega

theorem flush_task_work (hk : k ≠ .isr) (hi : s.pc .isr = .idle) (h : s.canbusFlush .isr k = some t) :
    t.work < s.work := by
  unfold canbusFlush at h
  cases hpc : s.pc k <;> rw [hpc] at h
  case idle => cases h
  case test =>
    cases h
    refine work_task rfl hk hi (Nat.add_lt_add_left ?_ _)
    rw [hpc]
    split <;> decide
  case receive =>
    cases hq : s.cantxq with
    | cons e q =>
      rw [hq] at h
      cases h
      refine work_task (u := { s with cantxq := q }) (s := s) rfl hk hi ?_
      have hload := load_dequeue hq
      rw [hpc]
      simp only [FlushPc.work]
      omega
    | nil =>
      rw [hq] at h
      cases h
      refine work_task rfl hk hi (Nat.add_lt_add_left ?_ _)
      rw [hpc]
      decide
  case transmit e =>
    cases h
    refine work_task (canTransmit_pc s e).1 hk hi ?_
    have hload := load_transmit s e
    rw [hpc]
    simp only [FlushPc.work]
    omega
  case last =>
    cases h
    refine work_task rfl hk hi (Nat.add_lt_add_left ?_ _)
    rw [hpc]
    split <;> decide
  case irq =>
    cases h
    refine work_task (u := { s with tmeie := decide (k ≠ .isr) }) (s := s) rfl hk hi ?_
    have hload := load_irq s (decide (k ≠ .isr))
    rw [decide_eq_true hk] at hload ⊢
    rw [hpc]
    simp only [FlushPc.work, if_true] at hload ⊢
    split at hload <;> omega

theorem flush_isr_work (harmed : s.Armed) (h : s.canbusFlush .isr .isr = some t) : t.work < s.work := by
  unfold canbusFlush at h
  cases hpc : s.pc .isr <;> rw [hpc] at h
  case idle => cases h
  case test =>
    cases h
    refine work_isr rfl (Nat.add_lt_add_left ?_ _)
    rw [hpc]
    unfold isrWork
    -- with no mailbox free it goes on to the last test
    cases s.canAvailableMailbox <;> cases s.cantxq.isEmpty <;> decide
  case receive =>
    cases hq : s.cantxq with
    | cons e q =>
      rw [hq] at h
      cases h
      refine work_isr (u := { s with cantxq := q }) (s := s) rfl ?_
      have hload := load_dequeue hq
      rw [hpc]
      simp only [isrWork, FlushPc.isrWork]
      omega
    | nil =>
      rw [hq] at h
      cases h
      refine work_isr rfl (Nat.add_lt_add_left ?_ _)
      rw [hpc]
      unfold isrWork
      rw [hq]
      exact Nat.lt_succ_self 2
  case transmit e =>
    cases h
    refine work_isr (canTransmit_pc s e).1 ?_
    have hload := load_transmit s e
    have htest : (s.canTransmit e).isrWork .test ≤ 7 := by
      simp only [isrWork, FlushPc.isrWork]
      split <;> omega
    rw [hpc]
    simp only [isrWork, FlushPc.isrWork] at htest ⊢
    omega
  case last =>
    cases h
    refine work_isr rfl (Nat.add_lt_add_left ?_ _)
    rw [hpc]
    unfold isrWork
    cases s.cantxq.isEmpty <;> exact Nat.lt_succ_self _
  case irq =>
    cases h
    refine work_isr (u := { s with tmeie := false }) (s := s) rfl ?_
    have hload := load_irq s false
    have hon : s.tmeie = true := harmed (by rw [hpc]; exact FlushPc.noConfusion)
    rw [hon] at hload
    rw [hpc]
    simp only [isrWork, FlushPc.isrWork] at hload ⊢
    simp at hload ⊢
    omega

theorem Armed.goto (h : u.tmeie = s.tmeie) (hu : u.pc = s.pc) {pc : FlushPc} (hs : s.Armed)
    (hk : k = .isr → s.tmeie = true) : (u.goto k pc).Armed := by
  intro hpc
  show u.tmeie = true
  rw [h]
  by_cases hisr : k = .isr
  · exact hk hisr
  · rw [goto_pc_of_ne u pc (Ne.symm hisr), hu] at hpc
    exact hs hpc

theorem Armed.flush (hs : s.Armed) (h : s.canbusFlush .isr k = some t) : t.Armed := by
  have hon : s.pc k ≠ .idle → k = .isr → s.tmeie = true := fun hpc hisr => hs (hisr ▸ hpc)
  unfold canbusFlush at h
  cases hpc : s.pc k <;> rw [hpc] at h hon
  case idle => cases h
  case test =>
    cases h
    exact Armed.goto rfl rfl hs (hon FlushPc.noConfusion)
  case receive =>
    cases hq : s.cantxq with
    | cons e q =>
      rw [hq] at h
      cases h
      exact Armed.goto (s := s) rfl rfl hs (hon FlushPc.noConfusion)
    | nil =>
      rw [hq] at h
      cases h
      exact Armed.goto rfl rfl hs (hon FlushPc.noConfusion)
  case transmit e =>
    cases h
    obtain ⟨hu, -, htmeie, -⟩ := canTransmit_pc s e
    exact Armed.goto htmeie hu hs (hon FlushPc.noConfusion)
  case last =>
    cases h
    exact Armed.goto rfl rfl hs (hon FlushPc.noConfusion)
  case irq =>
    cases h
    intro hidle
    by_cases hisr : k = .isr
    · rw [hisr, goto_pc_self] at hidle
      exact absurd rfl hidle
    · exact decide_eq_true hisr

theorem Armed.step {a : CanbusAct} (hs : s.Armed) (h : s.step .isr a = some t) : t.Armed := by
  cases a with
  | send k m =>
    obtain ⟨hk, h⟩ := Option.ite_none_right_eq_some.mp h
    cases h
    unfold canbusSend
    split
    · exact Armed.goto (s := s) rfl rfl hs fun hisr => absurd hisr hk.1
    · exact hs
  | run k =>
    obtain ⟨_, h⟩ := Option.ite_none_right_eq_some.mp h
    exact hs.flush h
  | irq =>
    obtain ⟨hk, h⟩ := Option.ite_none_right_eq_some.mp h
    cases h
    exact Armed.goto rfl rfl hs fun _ => hk.1
  | sent i =>
    obtain ⟨_, h⟩ := Option.ite_none_right_eq_some.mp h
    cases h
    exact hs

/-- **The rank.** -/
theorem draining_work {a : CanbusAct} (hs : s.Armed) (ha : s.Draining a) (h : s.step .isr a = some t) :
    t.work < s.work := by
  cases a with
  | send k m => exact absurd ha id
  | run k =>
    obtain ⟨hk, h⟩ := Option.ite_none_right_eq_some.mp h
    by_cases hisr : k = .isr
    · rw [hisr] at h
      exact flush_isr_work hs h
    · exact flush_task_work hisr (hk.resolve_left hisr) h
  | irq =>
    obtain ⟨⟨_, hidle⟩, h⟩ := Option.ite_none_right_eq_some.mp h
    cases h
    refine work_isr rfl (Nat.add_lt_add_left ?_ _)
    have hfree : s.canAvailableMailbox = true := ha
    unfold isrWork
    rw [hidle, hfree]
    exact Nat.lt_succ_self 4
  | sent i =>
    obtain ⟨hi, h⟩ := Option.ite_none_right_eq_some.mp h
    cases h
    have hlen := List.length_eraseIdx_of_lt hi
    have hfull : TxQueue.isrWork { s with boxes := s.boxes.eraseIdx i } (s.pc .isr) ≤
        s.isrWork (s.pc .isr) := by
      unfold isrWork canAvailableMailbox
      simp only [hlen]
      cases s.pc .isr <;> simp only [FlushPc.isrWork, Nat.le_refl]
      split <;> split <;> simp_all
      omega
    unfold work
    have htasks : TxQueue.tasksWork { s with boxes := s.boxes.eraseIdx i } = s.tasksWork := rfl
    have hload : TxQueue.load { s with boxes := s.boxes.eraseIdx i } + 1 = s.load := by
      unfold load
      simp only [hlen]
      omega
    rw [htasks]
    simp only at hfull ⊢
    omega

theorem flush_goes (h : s.pc k ≠ .idle) : ∃ t, s.canbusFlush .isr k = some t := by
  unfold canbusFlush
  cases hpc : s.pc k
  case idle => exact absurd hpc h
  case receive =>
    simp only
    split <;> exact ⟨_, rfl⟩
  all_goals exact ⟨_, rfl⟩

theorem step_run (hk : k = .isr ∨ s.pc .isr = .idle) : s.step .isr (.run k) = s.canbusFlush .isr k := if_pos hk

/-- Something goes on until nothing is left; a message that waits has the interrupt. -/
theorem canbus_goes (hs : Attended .isr s) :
    s.Drained ∨ ∃ a t, Draining s a ∧ canbus.step s a = some t := by
  by_cases hisr : s.pc .isr = .idle
  swap
  · obtain ⟨t, ht⟩ := flush_goes hisr
    exact .inr ⟨.run .isr, t, trivial, (step_run (.inl rfl)).trans ht⟩
  by_cases htask : ∃ k, s.pc k ≠ .idle
  · obtain ⟨k, hk⟩ := htask
    obtain ⟨t, ht⟩ := flush_goes hk
    exact .inr ⟨.run k, t, trivial, (step_run (.inr hisr)).trans ht⟩
  have hidle : ∀ k, s.pc k = .idle := fun k => not_not.mp (not_exists.mp htask k)
  cases hboxes : s.boxes with
  | cons e b =>
    have hpos : 0 < s.boxes.length := by
      rw [hboxes, List.length_cons]
      exact Nat.succ_pos _
    exact .inr ⟨.sent 0, _, trivial, if_pos hpos⟩
  | nil =>
    by_cases htmeie : s.tmeie = true
    · refine .inr ⟨.irq, _, ?_, if_pos ⟨htmeie, hisr⟩⟩
      show decide (s.boxes.length < 3) = true
      rw [hboxes]
      rfl
    · refine .inl ⟨?_, hboxes, Bool.eq_false_of_not_eq_true htmeie, hidle⟩
      by_contra hq
      obtain hon | ⟨k, _, hk⟩ := hs.waiting hq
      · exact htmeie hon
      · exact hk (hidle k)

theorem draining_accepted {a : CanbusAct} (ha : s.Draining a) (h : s.step .isr a = some t) :
    t.accepted = s.accepted := by
  cases canbus_step h with
  | send k m hk => exact absurd ha id
  | move k pc tmeie a h0 h1 => rfl
  | dequeue k e q hk hq => rfl
  | transmit k e hk => exact (canTransmit_pc s e).2.2.2
  | sent i hi => rfl

theorem Drained.out (h : s.Drained) (hs : Ledger s) {e : Entry} (he : e ∈ s.accepted) :
    (s.placed ++ s.dropped).count e = 1 := by
  have hbalance := hs.balance e
  have hheld : s.held = [] := by
    unfold held
    rw [h.pc, h.pc, h.pc]
    rfl
  rw [h.cantxq, hheld, List.count_nil, List.count_eq_one_of_mem hs.nodup he] at hbalance
  rw [List.count_append]
  omega

end

end TxQueue

section
variable {s t : Canbus} {as bs : List CanbusAct}

theorem canbus_armed (h : canbus.run TxQueue.init as = some s) : s.Armed :=
  (Machine.run_free h).inv (I := TxQueue.Armed) (fun hpc => absurd rfl hpc) fun _ _ _ hx _ hs =>
    hx.step hs

theorem canbus_ledger (h : canbus.run TxQueue.init as = some s) : Ledger s :=
  (Machine.run_free h).inv init_roomed.ledger fun _ _ _ hx _ hs => ledger_step hx hs

theorem canbus_descends : Machine.Descends canbus
    (fun s => ∃ as, canbus.run TxQueue.init as = some s) TxQueue.Draining TxQueue.work where
  keeps x a y hx _ hs := by
    obtain ⟨as, has⟩ := hx
    exact ⟨as ++ [a], canbus.run_snoc.mpr ⟨x, has, hs⟩⟩
  lowers x a y hx ha hs := by
    obtain ⟨as, has⟩ := hx
    exact TxQueue.draining_work (canbus_armed has) ha hs

end

/-- **The queue runs empty.**  From every reachable state, if nobody calls `canbus_send` and the
interrupt comes only with a mailbox free, the moves that are left are no more than the work, one of
them is possible until all is drained, and then every message that was accepted has come to
`can_transmit` once. -/
theorem canbus_drains (as bs : List CanbusAct) (s t : Canbus)
    (h : canbus.run TxQueue.init as = some s) (hmoves : canbus.Along TxQueue.Draining s bs)
    (hrun : canbus.run s bs = some t) :
    bs.length + t.work ≤ s.work ∧
      (t.Drained ∨ ∃ a u, TxQueue.Draining t a ∧ canbus.step t a = some u) ∧
      (t.Drained → ∀ e ∈ s.accepted, (t.placed ++ t.dropped).count e = 1) := by
  have hrest : canbus.run TxQueue.init (as ++ bs) = some t := by
    rw [Machine.run_append, h]
    exact hrun
  have haccepted : t.accepted = s.accepted :=
    (Machine.run_reach hmoves hrun).inv (I := fun x => x.accepted = s.accepted) rfl
      fun _ _ _ hx ha hs => (TxQueue.draining_accepted ha hs).trans hx
  refine ⟨canbus_descends.length ⟨as, h⟩ hmoves hrun, TxQueue.canbus_goes (TxQueue.run_attended hrest),
    fun hdrained e he => ?_⟩
  exact hdrained.out (canbus_ledger hrest) (haccepted ▸ he)

/-- a mailbox for each of three messages; the fourth waits for the interrupt -/
def fourAccepted : List CanbusAct :=
  List.flatten [sendAlone .canrx 6, sendAlone .cancon 6, sendAlone .canrx 5, sendAlone .cancon 3]

/-- The interrupt places the fourth message, finds no more, and the mailboxes are sent. -/
def fourDrained : List CanbusAct :=
  [.sent 1, .irq] ++ List.replicate 6 (.run .isr) ++ [.sent 0, .sent 0, .sent 0]

theorem canbus_drains_four : ∃ s t, canbus.run TxQueue.init fourAccepted = some s ∧
    canbus.run s fourDrained = some t ∧ s.accepted.length = 4 ∧ t.Drained ∧
    ∀ e ∈ s.accepted, (t.placed ++ t.dropped).count e = 1 := by
  have hstart : (canbus.run TxQueue.init fourAccepted).map (fun s =>
      (s.accepted.length, decide (canbus.Along TxQueue.Draining s fourDrained))) =
        some (4, true) := by
    decide
  have hend : ((canbus.run TxQueue.init fourAccepted).bind fun s =>
      (canbus.run s fourDrained).map fun t => (t.cantxq, t.boxes, t.tmeie,
        [t.pc .canrx, t.pc .cancon, t.pc .isr])) = some ([], [], false, [.idle, .idle, .idle]) := by
    decide
  obtain ⟨s, hs, hend⟩ := Option.bind_eq_some_iff.mp hend
  obtain ⟨t, ht, hend⟩ := Option.map_eq_some_iff.mp hend
  rw [hs, Option.map_some, Option.some.injEq, Prod.mk.injEq, decide_eq_true_iff] at hstart
  rw [Prod.mk.injEq, Prod.mk.injEq, Prod.mk.injEq, List.cons.injEq, List.cons.injEq,
    List.cons.injEq] at hend
  obtain ⟨hq, hboxes, htmeie, hrx, hcon, hisr, _⟩ := hend
  have hdrained : t.Drained := ⟨hq, hboxes, htmeie, fun k => by cases k <;> assumption⟩
  obtain ⟨_, _, hout⟩ := canbus_drains fourAccepted fourDrained s t hs hstart.2 ht
  exact ⟨s, t, hs, ht, hstart.1, hdrained, hout hdrained⟩

end Bramble
