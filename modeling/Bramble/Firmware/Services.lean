import Bramble.Firmware.Serial

/-!
# CAN services of the control processor (`canservices.c`)

The state of the services, the six request handlers and the dispatch of `canservices_rx_task`.
A handler maps the state and the request to the new state and the list of its effects, in order:
what it hands to `canbus_send`, what it hands to `serial_send`, and the notifications it gives to
the console task.  The return value of `canbus_send` only selects a trace message here, so a
handler does not depend on it.

`power_set_state` is represented by its state at return: `RUN_PG` has followed `GLOBAL_EN` and the
backup register is written.
-/

namespace Bramble

/-! ## state -/

/-- program points of `canservices_console_task`, with its local `msg` as far as it is filled in -/
inductive TaskPc where
  /-- at `serial_recv` -/
  | recv
  /-- `dlen > 0` bytes received -/
  | got (data : Payload)
  /-- `msg.dst` read from `console.dstaddr` -/
  | addressed (data : Payload) (dst : Addr)
  /-- `msg.object` read from `console.object` -/
  | named (data : Payload) (dst : Addr) (object : UInt8)
  /-- at `send_msg` -/
  | built (msg : CanMsg)
  /-- at `ulTaskNotifyTake` -/
  | wait
  deriving DecidableEq

structure Task where
  pc : TaskPc
  /-- the local `int seq` -/
  seq : Nat
  /-- notification count -/
  notify : Nat
  suspended : Bool
  deriving DecidableEq

structure Console where
  dstaddr : Addr
  object : UInt8
  connected : Bool
  deriving DecidableEq

structure Power where
  /-- PB14, output -/
  globalEn : Bool
  /-- PA8, input -/
  runPg : Bool
  /-- PA5, input: low when the shutdown is complete -/
  running : Bool
  /-- `BKP_DR1` -/
  dr1 : Nat
  /-- notification count of the shutdown task -/
  shutdown : Nat
  deriving DecidableEq

structure Fw where
  srcaddr : Addr
  console : Console
  task : Task
  serial : Serial
  power : Power
  deriving DecidableEq

/-- after `canservices_init` on the node `a`, with the power off -/
def Fw.init (a : Addr) : Fw where
  srcaddr := a
  console := ⟨0, 0, false⟩
  task := ⟨.recv, 0, 0, true⟩
  serial := ⟨[], 0, [], false, false⟩
  power := ⟨false, false, false, 0, 0⟩

inductive Eff where
  | send (m : CanMsg)
  | serialSend (bs : List UInt8)
  | notifyGive
  deriving DecidableEq

def Eff.msg? : Eff → Option CanMsg
  | .send m => some m
  | _ => none

/-- the messages handed to `canbus_send` -/
def sends (es : List Eff) : List CanMsg := es.filterMap Eff.msg?

/-! ## power -/

def powerGetState (p : Power) : Bool := p.runPg

/-- `power_set_state (val)` at its return -/
def powerSetState (p : Power) (val : Bool) : Power :=
  { p with globalEn := val, runPg := val, dr1 := if val then 1 else 0 }

def powerShutdown (p : Power) : Power := { p with shutdown := p.shutdown + 1 }

def powerIsShutdown (p : Power) : Bool := !p.running

/-! ## handlers -/

def sendNak (fw : Fw) (request : CanMsg) : List Eff :=
  if request.type = .wna then []
  else [.send { request with type := .nak, dst := request.src, src := fw.srcaddr, data := .empty }]

def canservicesEcho (fw : Fw) (request : CanMsg) : Fw × List Eff :=
  if request.type ≠ .wo then (fw, sendNak fw request)
  else (fw, [.send { request with type := .ack, dst := request.src, src := fw.srcaddr }])

def canservicesPower (fw : Fw) (request : CanMsg) : Fw × List Eff :=
  match request.type with
  | .wo =>
    match request.data.bytes with
    | [0] => ({ fw with power := powerSetState fw.power false },
        [.send { request with type := .ack, dst := request.src, src := fw.srcaddr, data := .empty }])
    | [1] => ({ fw with power := powerSetState fw.power true },
        [.send { request with type := .ack, dst := request.src, src := fw.srcaddr, data := .empty }])
    | _ => (fw, sendNak fw request)
  | .ro => (fw, [.send { request with
      type := .ack, dst := request.src, src := fw.srcaddr,
      data := .single (if powerGetState fw.power then 1 else 0) }])
  | _ => (fw, sendNak fw request)

def canservicesShutdown (fw : Fw) (request : CanMsg) : Fw × List Eff :=
  match request.type with
  | .wo =>
    if request.dlen ≠ 0 then (fw, sendNak fw request)
    else ({ fw with power := powerShutdown fw.power },
      [.send { request with type := .ack, dst := request.src, src := fw.srcaddr, data := .empty }])
  | .ro => (fw, [.send { request with
      type := .ack, dst := request.src, src := fw.srcaddr,
      data := .single (if powerIsShutdown fw.power then 1 else 0) }])
  | _ => (fw, sendNak fw request)

def canservicesConsoleconn (fw : Fw) (request : CanMsg) : Fw × List Eff :=
  if request.type ≠ .wo then (fw, sendNak fw request)
  else match request.data.bytes with
    | [object] =>
      ({ fw with
          serial := { fw.serial with rxEnabled := true }
          console := { dstaddr := request.src, object := object, connected := true }
          task := { fw.task with suspended := false } },
        [.send { request with type := .ack, dst := request.src, src := fw.srcaddr, data := .empty }])
    | _ => (fw, sendNak fw request)

def canservicesConsoledisc (fw : Fw) (request : CanMsg) : Fw × List Eff :=
  if request.type ≠ .wo then (fw, sendNak fw request)
  else match request.data.bytes with
    | [object] =>
      if fw.console.connected = false ∨ fw.console.dstaddr ≠ request.src
          ∨ fw.console.object ≠ object then (fw, sendNak fw request)
      else
        ({ fw with
            serial := { fw.serial with rxEnabled := false }
            console := { fw.console with connected := false }
            task := { fw.task with suspended := true } },
          [.send { request with type := .ack, dst := request.src, src := fw.srcaddr, data := .empty }])
    | _ => (fw, sendNak fw request)

/-- can -> serial -/
def canservicesConsolerecv (fw : Fw) (request : CanMsg) : Fw × List Eff :=
  if request.type ≠ .dat then (fw, sendNak fw request)
  else if fw.console.connected = false then (fw, sendNak fw request)
  else
    let r := fw.serial.serialSend request.data.bytes
    let fw' := { fw with serial := r.1 }
    if r.2 < request.dlen then (fw', .serialSend request.data.bytes :: sendNak fw' request)
    else if request.eot then
      (fw', [.serialSend request.data.bytes,
        .send { request with
          type := .ack, dst := request.src, src := fw.srcaddr, data := .empty,
          eot := false, seq := 0 }])
    else (fw', [.serialSend request.data.bytes])

def requestDispatch (fw : Fw) (msg : CanMsg) : Fw × List Eff :=
  if msg.object = objEcho then canservicesEcho fw msg
  else if msg.object = objPower then canservicesPower fw msg
  else if msg.object = objConsoleconn then canservicesConsoleconn fw msg
  else if msg.object = objConsoledisc then canservicesConsoledisc fw msg
  else if msg.object = objConsolerecv then canservicesConsolerecv fw msg
  else if msg.object = objShutdown then canservicesShutdown fw msg
  else (fw, sendNak fw msg)

/-- `xTaskNotifyGive (console.task)` -/
def Fw.notifyGive (fw : Fw) : Fw := { fw with task := { fw.task with notify := fw.task.notify + 1 } }

/-- body of the loop of `canservices_rx_task` for one received message -/
def canservicesRxTask (fw : Fw) (msg : CanMsg) : Fw × List Eff :=
  match msg.type with
  | .wo | .ro | .wna | .dat => requestDispatch fw msg
  | .ack =>
    if fw.console.connected = true ∧ msg.object = fw.console.object then
      (fw.notifyGive, [.notifyGive])
    else (fw, [])
  | .nak | .sig | .unassigned => (fw, [])

end Bramble
