import Bramble.Firmware.Services

/-!
# The console task (`canservices_console_task`)

One step of the task per access to something shared: `serial_recv`, the reads of
`console.dstaddr` and `console.object`, the end-of-burst test, `send_msg`, and the return of
`ulTaskNotifyTake`.  The rx task, the interrupts and the bus may act between any two of them.

* `consoleTask`       the step function;
* `consoleTask_step`  its inversion: every step is a `TaskStep`.
-/

namespace Bramble

/-- What is left open by the task itself: whether `canbus_send` finds room in `cantxq`, and
whether the 500 ms wait expires. -/
inductive TaskEv where
  | run
  | sendFail
  | timeout
  deriving DecidableEq, Repr

/-- what a step does outside the state of the services -/
inductive TaskEff where
  | quiet
  /-- bytes removed from `serialrxq` -/
  | took (bs : List UInt8)
  /-- message accepted by `canbus_send` -/
  | sent (m : CanMsg)
  deriving DecidableEq

def Fw.goto (fw : Fw) (pc : TaskPc) : Fw := { fw with task := { fw.task with pc := pc } }

/-- the message of the task, with `msg.eot` and `msg.seq` set -/
def Fw.datMsg (fw : Fw) (data : Payload) (dst : Addr) (object : UInt8) : CanMsg :=
  { pri := 1, dst := dst, src := fw.srcaddr, type := .dat, object := object,
    eot := fw.serial.serialRecvAvailable == 0 || fw.task.seq == 15,
    seq := Fin.ofNat 16 fw.task.seq, data := data }

/-- the task after `ulTaskNotifyTake (pdTRUE, ..)` and `seq = 0` -/
def Fw.endWait (fw : Fw) : Fw :=
  { fw with task := { fw.task with pc := .recv, seq := 0, notify := 0 } }

/-- what can happen on one node: the two halves of `usart1_isr`, a message for the rx task, and a
step of the console task -/
inductive NodeAct where
  | uart (c : UInt8)
  | usartTx
  | can (m : CanMsg)
  | task (ev : TaskEv)
  deriving DecidableEq

/-- one step of `canservices_console_task` -/
def consoleTask (fw : Fw) (ev : TaskEv) : Option (Fw × TaskEff) :=
  if fw.task.suspended then none
  else match fw.task.pc, ev with
  | .recv, .run =>
    let r := fw.serial.serialRecv 8
    let fw' := { fw with serial := r.1 }
    if 0 < r.2.length then some (fw'.goto (.got (.ofList r.2)), .took r.2)
    else some (fw', .took r.2)
  | .got data, .run => some (fw.goto (.addressed data fw.console.dstaddr), .quiet)
  | .addressed data dst, .run => some (fw.goto (.named data dst fw.console.object), .quiet)
  | .named data dst object, .run =>
    some ({ fw with task := { fw.task with
      pc := .built (fw.datMsg data dst object), seq := fw.task.seq + 1 } }, .quiet)
  | .built msg, .run => some (fw.goto (if msg.eot then .wait else .recv), .sent msg)
  -- "error sending console data": back to the top of the loop
  | .built _, .sendFail => some (fw.goto .recv, .quiet)
  | .wait, .run => if 0 < fw.task.notify then some (fw.endWait, .quiet) else none
  | .wait, .timeout => if fw.task.notify = 0 then some (fw.endWait, .quiet) else none
  | _, _ => none

/-- bytes taken from `serialrxq` and not yet handed to `canbus_send` -/
def TaskPc.inHand : TaskPc → List UInt8
  | .got d => d.bytes
  | .addressed d _ => d.bytes
  | .named d _ _ => d.bytes
  | .built m => m.data.bytes
  | .recv => []
  | .wait => []

/-- Everything a step of the console task can do, by program point. -/
inductive TaskStep (fw : Fw) : TaskEv → Fw → TaskEff → Prop
  | recv (hpc : fw.task.pc = .recv) :
      TaskStep fw .run { fw with
        serial := (fw.serial.serialRecv 8).1
        task := { fw.task with
          pc := if fw.serial.rxq = [] then .recv else .got (.ofList fw.serial.rxq) } }
        (.took (fw.serial.rxq.take 8))
  | addr (d : Payload) (hpc : fw.task.pc = .got d) :
      TaskStep fw .run (fw.goto (.addressed d fw.console.dstaddr)) .quiet
  | object (d : Payload) (a : Addr) (hpc : fw.task.pc = .addressed d a) :
      TaskStep fw .run (fw.goto (.named d a fw.console.object)) .quiet
  | build (d : Payload) (a : Addr) (o : UInt8) (hpc : fw.task.pc = .named d a o) :
      TaskStep fw .run { fw with task := { fw.task with
        pc := .built (fw.datMsg d a o), seq := fw.task.seq + 1 } } .quiet
  | send (m : CanMsg) (hpc : fw.task.pc = .built m) :
      TaskStep fw .run (fw.goto (if m.eot then .wait else .recv)) (.sent m)
  | fail (m : CanMsg) (hpc : fw.task.pc = .built m) : TaskStep fw .sendFail (fw.goto .recv) .quiet
  | notified (hpc : fw.task.pc = .wait) (hn : 0 < fw.task.notify) :
      TaskStep fw .run fw.endWait .quiet
  | expired (hpc : fw.task.pc = .wait) (hn : fw.task.notify = 0) :
      TaskStep fw .timeout fw.endWait .quiet

section
variable {fw fw' : Fw} {ev : TaskEv} {e : TaskEff}

theorem consoleTask_recv (h : consoleTask fw .run = some (fw', e)) (hs : ¬ fw.task.suspended = true)
    (hpc : fw.task.pc = .recv) : TaskStep fw .run fw' e := by
  unfold consoleTask at h
  rw [if_neg hs, hpc] at h
  simp only [Serial.serialRecv_bytes, Fw.goto] at h
  have hr := TaskStep.recv hpc
  by_cases hq : fw.serial.rxq = []
  · rw [if_neg (by simp [hq])] at h
    cases h
    rwa [if_pos hq, ← hpc] at hr
  · have hlen : 0 < (fw.serial.rxq.take 8).length := by
      rw [List.length_take]
      have := List.length_pos_iff.mpr hq
      omega
    have hd : Payload.ofList (List.take 8 fw.serial.rxq) = .ofList fw.serial.rxq := by
      simp [Payload.ofList, List.take_take]
    rw [if_pos hlen, hd] at h
    cases h
    rwa [if_neg hq] at hr

theorem consoleTask_wait (h : consoleTask fw ev = some (fw', e)) (hs : ¬ fw.task.suspended = true)
    (hpc : fw.task.pc = .wait) : TaskStep fw ev fw' e := by
  unfold consoleTask at h
  rw [if_neg hs, hpc] at h
  cases ev with
  | run =>
    by_cases hn : 0 < fw.task.notify
    · simp only [if_pos hn] at h
      cases h
      exact .notified hpc hn
    · simp only [if_neg hn] at h
      cases h
  | sendFail => cases h
  | timeout =>
    by_cases hn : fw.task.notify = 0
    · simp only [if_pos hn] at h
      cases h
      exact .expired hpc hn
    · simp only [if_neg hn] at h
      cases h

/-- **The step function does nothing else.** -/
theorem consoleTask_step (h : consoleTask fw ev = some (fw', e)) :
    fw.task.suspended = false ∧ TaskStep fw ev fw' e := by
  by_cases hs : fw.task.suspended = true
  · simp [consoleTask, hs] at h
  · refine ⟨by simpa using hs, ?_⟩
    have h' := h
    unfold consoleTask at h'
    rw [if_neg hs] at h'
    cases hpc : fw.task.pc with
    | recv =>
      cases ev with
      | run => exact consoleTask_recv h hs hpc
      | sendFail => rw [hpc] at h'; cases h'
      | timeout => rw [hpc] at h'; cases h'
    | got d =>
      rw [hpc] at h'
      cases ev <;> cases h'
      exact .addr d hpc
    | addressed d a =>
      rw [hpc] at h'
      cases ev <;> cases h'
      exact .object d a hpc
    | named d a o =>
      rw [hpc] at h'
      cases ev <;> cases h'
      exact .build d a o hpc
    | built m =>
      rw [hpc] at h'
      cases ev <;> cases h'
      · exact .send m hpc
      · exact .fail m hpc
    | wait => exact consoleTask_wait h hs hpc

theorem consoleTask_console (h : consoleTask fw ev = some (fw', e)) :
    fw'.console = fw.console ∧ fw'.srcaddr = fw.srcaddr ∧ fw'.task.suspended = false := by
  obtain ⟨hs, h⟩ := consoleTask_step h
  cases h <;> exact ⟨rfl, rfl, hs⟩

end

end Bramble
