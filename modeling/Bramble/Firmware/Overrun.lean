import Bramble.Firmware.Serial
import Bramble.Lib.Lists

/-!
# Receive overruns (`serial.c`)

`usart1_isr` may come between any two accesses of `serial_recv` to the stream buffer and to
`serialrxq_overrun`, each of which is a step of its own here.

* `rxPort`              the machine: one task in `serial_recv`, the receive interrupt, and a log;
* `serial_recv_alone`   a call that is not interrupted is `serialRecv`;
* `dropping`            a byte has been lost, and no `serial_recv` has left enough room since;
* `RxPort.Inv`          the invariant: the flag, the fill level and the log;
* `overrun_drops_runs`  what is returned and what is in the buffer is what was received, less whole
                        runs of bytes that begin with the buffer full.
-/

namespace Bramble

/-! ## the machine -/

/-- program points of `serial_recv`, with the bytes received -/
inductive RecvPc where
  /-- not in the function -/
  | outside
  /-- at `n > 0 && serialrxq_overrun > 0` -/
  | test (bs : List UInt8)
  /-- at `xStreamBufferSpacesAvailable` -/
  | query (bs : List UInt8)
  /-- at `serialrxq_overrun = 0` -/
  | clear (bs : List UInt8)
  deriving DecidableEq

/-- taken from the buffer and not yet returned -/
def RecvPc.inHand : RecvPc → List UInt8
  | .outside => []
  | .test bs | .query bs | .clear bs => bs

inductive RxEvent where
  /-- a byte is received; whether the buffer was full, and whether the byte was lost -/
  | byte (c : UInt8) (full lost : Bool)
  /-- `serial_recv` returns, with `free` bytes free -/
  | recv (bs : List UInt8) (free : Nat)
  deriving DecidableEq

structure RxPort where
  serial : Serial
  pc : RecvPc
  log : List RxEvent
  deriving DecidableEq

inductive RxPortAct where
  /-- `usart1_isr` with a byte in the data register -/
  | uart (c : UInt8)
  /-- `serial_rx_enable`, `serial_rx_disable` -/
  | enable (on : Bool)
  /-- `serial_recv`, up to the return of `xStreamBufferReceive` -/
  | call (bufsize : Nat)
  /-- one more step of it -/
  | run
  deriving DecidableEq

namespace RxPort
open Serial

def free (s : RxPort) : Nat := rxQueueDepth - s.serial.rxq.length

def usart1Isr (s : RxPort) (c : UInt8) : RxPort :=
  let serial := s.serial.usart1IsrRx c
  if s.serial.rxEnabled then
    { s with
      serial := serial
      log := s.log ++
        [.byte c (decide (rxQueueDepth ≤ s.serial.rxq.length)) (serial.rxq == s.serial.rxq)] }
  else { s with serial := serial }

/-- `return n` -/
def ret (s : RxPort) (bs : List UInt8) : RxPort :=
  { s with pc := .outside, log := s.log ++ [.recv bs s.free] }

def serialRecvStep (s : RxPort) : Option RxPort :=
  match s.pc with
  | .outside => none
  | .test bs =>
    some (if 0 < bs.length ∧ 0 < s.serial.overrun then { s with pc := .query bs } else s.ret bs)
  | .query bs => some (if rxOverrunResume ≤ s.free then { s with pc := .clear bs } else s.ret bs)
  | .clear bs => some ({ s with serial := { s.serial with overrun := 0 } }.ret bs)

def step (s : RxPort) : RxPortAct → Option RxPort
  | .uart c => some (s.usart1Isr c)
  | .enable on => some { s with serial := { s.serial with rxEnabled := on } }
  | .call bufsize =>
    if s.pc = .outside ∧ 1 ≤ bufsize then
      let r := streamReceive s.serial.rxq bufsize
      some { s with serial := { s.serial with rxq := r.2 }, pc := .test r.1 }
    else none
  | .run => s.serialRecvStep

/-- after `serial_init` -/
def init : RxPort := ⟨⟨[], 0, [], false, false⟩, .outside, []⟩

end RxPort

def rxPort : Machine RxPort RxPortAct := ⟨RxPort.step⟩

/-- A call that is not interrupted. -/
theorem serial_recv_alone (s : RxPort) {n : Nat} (hpc : s.pc = .outside) (hn : 1 ≤ n) :
    ∃ k t, rxPort.run s (.call n :: List.replicate k .run) = some t ∧
      t.serial = (s.serial.serialRecv n).1 ∧ t.pc = .outside ∧
      t.log = s.log ++ [.recv (s.serial.serialRecv n).2 t.free] := by
  obtain ⟨s1, hs1⟩ : ∃ s1, s1 = { s with
      serial := { s.serial with rxq := s.serial.rxq.drop n }, pc := .test (s.serial.rxq.take n) } :=
    ⟨_, rfl⟩
  have hcall : rxPort.step s (.call n) = some s1 := by
    rw [hs1]
    exact if_pos ⟨hpc, hn⟩
  have hrun : ∀ {k : Nat} {t : RxPort}, rxPort.run s1 (List.replicate k .run) = some t →
      rxPort.run s (.call n :: List.replicate k .run) = some t := fun h =>
    (Machine.run_cons_some _).mpr ⟨s1, hcall, h⟩
  by_cases htest : 0 < (s.serial.rxq.take n).length ∧ 0 < s.serial.overrun
  · have h1 : rxPort.step s1 .run = some { s1 with pc := .query (s.serial.rxq.take n) } := by
      rw [hs1]
      exact congrArg some (if_pos htest)
    by_cases hroom : Serial.rxOverrunResume ≤ Serial.rxQueueDepth - (s.serial.rxq.drop n).length
    · have hrecv : s.serial.serialRecv n =
          ({ s.serial with rxq := s.serial.rxq.drop n, overrun := 0 }, s.serial.rxq.take n) :=
        if_pos ⟨htest.1, htest.2, hroom⟩
      refine ⟨3, _, hrun ((Machine.run_cons_some _).mpr ⟨_, h1, (Machine.run_cons_some _).mpr
        ⟨{ s1 with pc := .clear (s.serial.rxq.take n) }, ?_, rfl⟩⟩), ?_, rfl, ?_⟩
      · rw [hs1]
        exact congrArg some (if_pos hroom)
      · rw [hrecv, hs1]
        rfl
      · rw [hrecv, hs1]
        rfl
    · have hrecv : s.serial.serialRecv n =
          ({ s.serial with rxq := s.serial.rxq.drop n }, s.serial.rxq.take n) :=
        if_neg fun h => hroom h.2.2
      refine ⟨2, s1.ret (s.serial.rxq.take n), hrun ((Machine.run_cons_some _).mpr ⟨_, h1,
        (Machine.run_cons_some _).mpr ⟨_, ?_, rfl⟩⟩), ?_, rfl, ?_⟩
      · rw [hs1]
        exact congrArg some (if_neg hroom)
      · rw [hrecv, hs1]
        rfl
      · rw [hrecv, hs1]
        rfl
  · have hrecv : s.serial.serialRecv n =
        ({ s.serial with rxq := s.serial.rxq.drop n }, s.serial.rxq.take n) :=
      if_neg fun h => htest ⟨h.1, h.2.1⟩
    refine ⟨1, s1.ret (s.serial.rxq.take n),
      hrun ((Machine.run_cons_some _).mpr ⟨_, ?_, rfl⟩), ?_, rfl, ?_⟩
    · rw [hs1]
      exact congrArg some (if_neg htest)
    · rw [hrecv, hs1]
      rfl
    · rw [hrecv, hs1]
      rfl

/-! ## what the log says -/

/-- what `serial_recv` returned -/
def returned (log : List RxEvent) : List UInt8 := log.flatMap fun e => match e with
  | .recv bs _ => bs
  | .byte _ _ _ => []

/-- what was received and not lost -/
def kept (log : List RxEvent) : List UInt8 := log.flatMap fun e => match e with
  | .byte c _ lost => if lost then [] else [c]
  | .recv _ _ => []

/-- a run of lost bytes goes on until a `serial_recv` leaves enough room -/
def RxEvent.gap (d : Bool) : RxEvent → Bool
  | .byte _ _ lost => d || lost
  | .recv _ free => d && decide (free < Serial.rxOverrunResume)

def dropping (log : List RxEvent) : Bool := log.foldl RxEvent.gap false

/-- A byte is lost iff the buffer is full or a run of lost bytes goes on. -/
def WholeRuns (log : List RxEvent) : Prop :=
  ∀ pre c full lost post, log = pre ++ .byte c full lost :: post → lost = (full || dropping pre)

theorem dropping_concat (log : List RxEvent) (e : RxEvent) :
    dropping (log ++ [e]) = e.gap (dropping log) := List.foldl_concat ..

theorem returned_byte (log : List RxEvent) (c : UInt8) (full lost : Bool) :
    returned (log ++ [.byte c full lost]) = returned log := by
  unfold returned
  rw [List.flatMap_append, List.flatMap_singleton, List.append_nil]

theorem returned_recv (log : List RxEvent) (bs : List UInt8) (free : Nat) :
    returned (log ++ [.recv bs free]) = returned log ++ bs := by
  unfold returned
  rw [List.flatMap_append, List.flatMap_singleton]

theorem kept_byte (log : List RxEvent) (c : UInt8) (full lost : Bool) :
    kept (log ++ [.byte c full lost]) = kept log ++ if lost then [] else [c] := by
  unfold kept
  rw [List.flatMap_append, List.flatMap_singleton]

theorem kept_recv (log : List RxEvent) (bs : List UInt8) (free : Nat) :
    kept (log ++ [.recv bs free]) = kept log := by
  unfold kept
  rw [List.flatMap_append, List.flatMap_singleton, List.append_nil]

theorem WholeRuns.byte {log : List RxEvent} (h : WholeRuns log) {c : UInt8} {full lost : Bool}
    (hl : lost = (full || dropping log)) : WholeRuns (log ++ [.byte c full lost]) := by
  intro pre c' full' lost' post heq
  rcases concat_eq_append_cons heq with ⟨rfl, he⟩ | ⟨post', hlog⟩
  · cases he
    exact hl
  · exact h pre c' full' lost' post' hlog

theorem WholeRuns.recv {log : List RxEvent} (h : WholeRuns log) (bs : List UInt8) (free : Nat) :
    WholeRuns (log ++ [.recv bs free]) := by
  intro pre c' full' lost' post heq
  rcases concat_eq_append_cons heq with ⟨_, he⟩ | ⟨post', hlog⟩
  · cases he
  · exact h pre c' full' lost' post' hlog

/-! ## the invariant -/

namespace RxPort
open Serial

/-- what the flag says about the fill level, at a program point -/
def AtPoint (s : RxPort) : Prop :=
  match s.pc with
  | .outside => 0 < s.serial.overrun → s.free < rxOverrunResume
  | .test bs => bs = [] → 0 < s.serial.overrun → s.free < rxOverrunResume
  | .query _ => 0 < s.serial.overrun
  | .clear _ => 0 < s.serial.overrun ∧ rxOverrunResume ≤ s.free

structure Inv (s : RxPort) : Prop where
  le : s.serial.rxq.length ≤ rxQueueDepth
  conserved : returned s.log ++ s.pc.inHand ++ s.serial.rxq = kept s.log
  flag : 0 < s.serial.overrun ↔ dropping s.log = true
  runs : WholeRuns s.log
  point : s.AtPoint

end RxPort

/-- the three things that can become of a byte -/
theorem usart1IsrRx_cases (s : Serial) (c : UInt8) (he : s.rxEnabled = true)
    (hle : s.rxq.length ≤ Serial.rxQueueDepth) :
    (0 < s.overrun ∧ s.usart1IsrRx c = { s with overrun := s.overrun + 1 }) ∨
    (s.overrun = 0 ∧ s.rxq.length = Serial.rxQueueDepth ∧
      s.usart1IsrRx c = { s with overrun := s.overrun + 1 }) ∨
    (s.overrun = 0 ∧ s.rxq.length < Serial.rxQueueDepth ∧
      s.usart1IsrRx c = { s with rxq := s.rxq ++ [c] }) := by
  unfold Serial.usart1IsrRx
  rw [if_pos he]
  by_cases ho : 0 < s.overrun
  · rw [if_pos ho]
    exact .inl ⟨ho, rfl⟩
  · rw [if_neg ho]
    have h0 : s.overrun = 0 := Nat.eq_zero_of_not_pos ho
    rcases Nat.eq_or_lt_of_le hle with hfull | hroom
    · have hsend : streamSend Serial.rxQueueDepth s.rxq [c] = (s.rxq, 0) := by
        unfold streamSend
        rw [hfull, Nat.sub_self, List.take_zero, List.append_nil, List.length_nil]
      rw [hsend]
      exact .inr (.inl ⟨h0, hfull, rfl⟩)
    · have hsend : streamSend Serial.rxQueueDepth s.rxq [c] = (s.rxq ++ [c], 1) := by
        unfold streamSend
        rw [List.take_of_length_le (by rw [List.length_singleton]; omega), List.length_singleton]
      rw [hsend]
      exact .inr (.inr ⟨h0, hroom, rfl⟩)

namespace RxPort.Inv
open Serial
variable {s t : RxPort}

theorem lose (h : Inv s) (c : UInt8) {full : Bool} (hl : (full || dropping s.log) = true)
    (hfull : full = true → s.serial.rxq.length = rxQueueDepth) :
    Inv { s with
      serial := { s.serial with overrun := s.serial.overrun + 1 }
      log := s.log ++ [.byte c full true] } := by
  refine ⟨h.le, ?_, ?_, h.runs.byte hl.symm, ?_⟩
  · rw [returned_byte, kept_byte, if_pos rfl, List.append_nil]
    exact h.conserved
  · rw [dropping_concat]
    exact iff_of_true (Nat.succ_pos _) (Bool.or_true _)
  · -- with the flag down, the buffer is full
    have hpoint := h.point
    have hlow : ¬ 0 < s.serial.overrun → s.free < rxOverrunResume := by
      intro ho
      rw [h.flag, Bool.not_eq_true] at ho
      rw [ho, Bool.or_false] at hl
      unfold RxPort.free
      rw [hfull hl]
      decide
    unfold RxPort.AtPoint at hpoint ⊢
    simp only
    cases hpc : s.pc <;> rw [hpc] at hpoint
    case outside => exact fun _ => by_contra fun hno => hno ((em _).elim hpoint hlow)
    case test bs =>
      exact fun hbs _ => by_contra fun hno => hno ((em _).elim (hpoint hbs) hlow)
    case query bs => exact Nat.succ_pos _
    case clear bs => exact ⟨Nat.succ_pos _, hpoint.2⟩

theorem keep (h : Inv s) (c : UInt8) (h0 : s.serial.overrun = 0)
    (hroom : s.serial.rxq.length < rxQueueDepth) :
    Inv { s with
      serial := { s.serial with rxq := s.serial.rxq ++ [c] }
      log := s.log ++ [.byte c false false] } := by
  have hno : ¬ 0 < s.serial.overrun := by omega
  have hd : dropping s.log = false := Bool.eq_false_of_not_eq_true (mt h.flag.mpr hno)
  refine ⟨?_, ?_, ?_, h.runs.byte (by rw [hd]; rfl), ?_⟩
  · rw [List.length_append, List.length_singleton]
    exact hroom
  · rw [returned_byte, kept_byte, if_neg Bool.false_ne_true, ← List.append_assoc, h.conserved]
  · rw [dropping_concat]
    rw [hd]
    exact iff_of_false hno Bool.false_ne_true
  · have hpoint := h.point
    unfold RxPort.AtPoint at hpoint ⊢
    simp only
    cases hpc : s.pc <;> rw [hpc] at hpoint
    case outside => exact fun ho => absurd ho hno
    case test bs => exact fun _ ho => absurd ho hno
    case query bs => exact absurd hpoint hno
    case clear bs => exact absurd hpoint.1 hno

theorem uart (h : Inv s) (c : UInt8) : Inv (s.usart1Isr c) := by
  unfold RxPort.usart1Isr
  by_cases he : s.serial.rxEnabled = true
  · rw [if_pos he]
    rcases usart1IsrRx_cases s.serial c he h.le with ⟨ho, heq⟩ | ⟨_, hfull, heq⟩ | ⟨h0, hroom, heq⟩
    · rw [heq]
      simp only [beq_self_eq_true]
      refine h.lose c ?_ fun hf => Nat.le_antisymm h.le (of_decide_eq_true hf)
      rw [h.flag.mp ho, Bool.or_true]
    · rw [heq]
      simp only [beq_self_eq_true]
      refine h.lose c ?_ fun _ => hfull
      rw [decide_eq_true (Nat.le_of_eq hfull.symm), Bool.true_or]
    · rw [heq]
      have hne : (s.serial.rxq ++ [c] == s.serial.rxq) = false := by simp
      simp only [hne, decide_eq_false (Nat.not_le.mpr hroom)]
      exact h.keep c h0 hroom
  · rw [if_neg he]
    have heq : s.serial.usart1IsrRx c = s.serial := by
      unfold Serial.usart1IsrRx
      rw [if_neg he]
    rw [heq]
    exact h

theorem call (h : Inv s) (hpc : s.pc = .outside) (n : Nat) (hn : 1 ≤ n) :
    Inv { s with
      serial := { s.serial with rxq := s.serial.rxq.drop n }, pc := .test (s.serial.rxq.take n) } := by
  refine ⟨?_, ?_, h.flag, h.runs, fun hbs ho => ?_⟩
  · have := h.le
    rw [List.length_drop]
    omega
  · have hc := h.conserved
    rw [hpc] at hc
    rw [← hc]
    show returned s.log ++ s.serial.rxq.take n ++ s.serial.rxq.drop n = returned s.log ++ [] ++ _
    rw [List.append_assoc, List.take_append_drop, List.append_nil]
  · -- an empty buffer has its flag down
    have hempty : s.serial.rxq = [] := by
      rcases List.take_eq_nil_iff.mp hbs with h' | h'
      · omega
      · exact h'
    have hpoint := h.point
    unfold RxPort.AtPoint RxPort.free at hpoint
    rw [hpc, hempty] at hpoint
    exact absurd (hpoint ho) (by decide)

/-- `serial_recv` returns, and leaves the flag as it is -/
theorem ret (h : Inv s) {bs : List UInt8} (hbs : s.pc.inHand = bs)
    (hlow : 0 < s.serial.overrun → s.free < rxOverrunResume) : Inv (s.ret bs) := by
  refine ⟨h.le, ?_, ?_, h.runs.recv _ _, hlow⟩
  · show returned (s.log ++ [.recv bs s.free]) ++ [] ++ s.serial.rxq = kept (s.log ++ _)
    rw [returned_recv, kept_recv, List.append_nil, ← h.conserved, hbs]
  · show 0 < s.serial.overrun ↔ dropping (s.log ++ [.recv bs s.free]) = true
    rw [dropping_concat, h.flag]
    unfold RxEvent.gap
    rw [Bool.and_eq_true, decide_eq_true_iff]
    exact ⟨fun hd => ⟨hd, hlow (h.flag.mpr hd)⟩, And.left⟩

theorem clear (h : Inv s) {bs : List UInt8} (hpc : s.pc = .clear bs) :
    Inv ({ s with serial := { s.serial with overrun := 0 } }.ret bs) := by
  have hpoint := h.point
  unfold RxPort.AtPoint at hpoint
  rw [hpc] at hpoint
  refine ⟨h.le, ?_, ?_, h.runs.recv _ _, fun ho => absurd ho (Nat.lt_irrefl 0)⟩
  · show returned (s.log ++ [.recv bs s.free]) ++ [] ++ s.serial.rxq = kept (s.log ++ _)
    rw [returned_recv, kept_recv, List.append_nil, ← h.conserved, hpc]
    rfl
  · show 0 < 0 ↔ dropping (s.log ++ [.recv bs s.free]) = true
    rw [dropping_concat]
    refine iff_of_false (Nat.lt_irrefl 0) ?_
    show ¬ (dropping s.log && decide (s.free < rxOverrunResume)) = true
    rw [decide_eq_false (Nat.not_lt.mpr hpoint.2), Bool.and_false]
    exact Bool.false_ne_true

theorem run (h : Inv s) (hs : s.serialRecvStep = some t) : Inv t := by
  have hpoint := h.point
  unfold RxPort.AtPoint at hpoint
  unfold RxPort.serialRecvStep at hs
  cases hpc : s.pc with
  | outside =>
    rw [hpc] at hs
    cases hs
  | test bs =>
    rw [hpc] at hs hpoint
    cases hs
    by_cases htest : 0 < bs.length ∧ 0 < s.serial.overrun
    · rw [if_pos htest]
      have hc := h.conserved
      rw [hpc] at hc
      exact ⟨h.le, hc, h.flag, h.runs, htest.2⟩
    · rw [if_neg htest]
      refine h.ret (by rw [hpc]; rfl) fun ho => hpoint ?_ ho
      exact List.eq_nil_of_length_eq_zero (Nat.eq_zero_of_not_pos fun hlen => htest ⟨hlen, ho⟩)
  | query bs =>
    rw [hpc] at hs hpoint
    cases hs
    by_cases hroom : rxOverrunResume ≤ s.free
    · rw [if_pos hroom]
      have hc := h.conserved
      rw [hpc] at hc
      exact ⟨h.le, hc, h.flag, h.runs, hpoint, hroom⟩
    · rw [if_neg hroom]
      exact h.ret (by rw [hpc]; rfl) fun _ => Nat.lt_of_not_le hroom
  | clear bs =>
    rw [hpc] at hs
    cases hs
    exact h.clear hpc

theorem step {a : RxPortAct} (h : Inv s) (hs : s.step a = some t) : Inv t := by
  cases a with
  | uart c =>
    cases hs
    exact h.uart c
  | enable on =>
    cases hs
    exact ⟨h.le, h.conserved, h.flag, h.runs, h.point⟩
  | call n =>
    obtain ⟨⟨hpc, hn⟩, hs⟩ := Option.ite_none_right_eq_some.mp hs
    cases hs
    exact h.call hpc n hn
  | run => exact h.run hs

theorem init : Inv RxPort.init := by
  refine ⟨Nat.zero_le _, rfl, by decide, ?_, fun h => absurd h (by decide)⟩
  intro pre c full lost post h
  exact absurd h (by simp [RxPort.init])

end RxPort.Inv

/-- **A receive overrun drops whole runs, and it ends.**  What `serial_recv` returned, with what is in
the buffer, is what was received less the bytes lost; a byte is lost iff the buffer is full or one has
been lost since a `serial_recv` last left 256 bytes free; and outside of `serial_recv` an overrun
means that the buffer holds more than that allows. -/
theorem overrun_drops_runs (s : RxPort) (as : List RxPortAct)
    (h : rxPort.run RxPort.init as = some s) :
    returned s.log ++ s.pc.inHand ++ s.serial.rxq = kept s.log ∧ WholeRuns s.log ∧
      (s.pc = .outside → 0 < s.serial.overrun →
        Serial.rxQueueDepth - Serial.rxOverrunResume < s.serial.rxq.length) := by
  have hinv : s.Inv := (Machine.run_free h).inv .init fun _ _ _ hi _ hs => hi.step hs
  refine ⟨hinv.conserved, hinv.runs, fun hpc ho => ?_⟩
  have hpoint := hinv.point
  unfold RxPort.AtPoint RxPort.free at hpoint
  rw [hpc] at hpoint
  have hlow := hpoint ho
  have := hinv.le
  unfold Serial.rxQueueDepth Serial.rxOverrunResume at *
  omega

/-- outside of `serial_recv`, with `bs` in the buffer -/
def RxPort.holding (bs : List UInt8) (log : List RxEvent) : RxPort :=
  ⟨⟨bs, 0, [], true, false⟩, .outside, log⟩

/-- bytes for which there is room -/
theorem fill_run (c : UInt8) {n : Nat} (hn : n ≤ Serial.rxQueueDepth) :
    rxPort.run (RxPort.holding [] []) (List.replicate n (.uart c)) =
      some (RxPort.holding (List.replicate n c) (List.replicate n (.byte c false false))) := by
  induction n with
  | zero => rfl
  | succ n ih =>
    rw [List.replicate_succ', Machine.run_snoc]
    refine ⟨_, ih (Nat.le_of_succ_le hn), ?_⟩
    have hfull : ¬ Serial.rxQueueDepth ≤ n := Nat.not_le.mpr hn
    have hroom : 1 ≤ Serial.rxQueueDepth - n := Nat.sub_pos_of_lt hn
    simp [rxPort, RxPort.step, RxPort.usart1Isr, RxPort.holding, Serial.usart1IsrRx, streamSend, hfull,
      List.take_of_length_le, hroom, List.replicate_succ']

/-- Two bytes that find the buffer full, a call that takes 256, and one more byte. -/
def overrunAndResume : List RxPortAct :=
  [.uart 98, .uart 99, .call 256, .run, .run, .run, .uart 100]

theorem resume_run {bs : List UInt8} (hbs : bs.length = Serial.rxQueueDepth) (log : List RxEvent) :
    rxPort.run (RxPort.holding bs log) overrunAndResume =
      some (RxPort.holding (bs.drop 256 ++ [100]) (log ++
        [.byte 98 true true, .byte 99 true true, .recv (bs.take 256) 256, .byte 100 false false])) := by
  unfold Serial.rxQueueDepth at hbs
  simp [overrunAndResume, rxPort, Machine.run, RxPort.step, RxPort.usart1Isr, RxPort.holding,
    RxPort.serialRecvStep, RxPort.ret, RxPort.free, Serial.usart1IsrRx, streamSend, streamReceive,
    Serial.rxQueueDepth, Serial.rxOverrunResume, hbs]

theorem returned_bytes (c : UInt8) (n : Nat) :
    returned (List.replicate n (.byte c false false)) = [] :=
  List.flatMap_eq_nil_iff.mpr fun e he => by rw [List.eq_of_mem_replicate he]

/-- Of a full buffer and three bytes, 98 and 99 are lost, and nothing else. -/
theorem overrun_drops_runs_full : ∃ s, rxPort.run RxPort.init (.enable true ::
      (List.replicate Serial.rxQueueDepth (.uart 97) ++ overrunAndResume)) = some s ∧
    kept s.log = List.replicate Serial.rxQueueDepth 97 ++ [100] ∧ WholeRuns s.log := by
  -- the length is not evaluated
  obtain ⟨n, hn⟩ : ∃ n, Serial.rxQueueDepth = n := ⟨_, rfl⟩
  have hfill := fill_run 97 (Nat.le_of_eq hn.symm)
  have hlen : (List.replicate n (97 : UInt8)).length = Serial.rxQueueDepth :=
    List.length_replicate.trans hn.symm
  have hrun : rxPort.run RxPort.init
        (.enable true :: (List.replicate n (.uart 97) ++ overrunAndResume)) =
      rxPort.run (RxPort.holding (List.replicate n 97) (List.replicate n (.byte 97 false false)))
        overrunAndResume := by
    show rxPort.run (RxPort.holding [] []) (_ ++ _) = _
    rw [Machine.run_append, hfill]
    rfl
  have hall := hrun.trans (resume_run hlen _)
  obtain ⟨hkept, hruns, _⟩ := overrun_drops_runs _ _ hall
  rw [hn]
  refine ⟨_, hall, ?_, hruns⟩
  rw [← hkept]
  show returned (_ ++ [_, _, _, _]) ++ [] ++ ((List.replicate n 97).drop 256 ++ [100]) = _
  rw [returned, List.flatMap_append, ← returned, returned_bytes]
  simp only [List.flatMap_cons, List.flatMap_nil, List.nil_append, List.append_nil]
  rw [← List.append_assoc, List.take_append_drop]

end Bramble
